import DocTree.Proofs.Convert.Converts

/-!
# Converting any graph of members

* `Conversion w scope symbol w'` : what converting one symbol comes to, with the symbols that are due;
  `Converts.conversion` : every conversion comes to that;
* `convert_exact` : converting a symbol succeeds in any member graph, with one declaration for each symbol that is
  due, or is refused without a trace.
-/

namespace DocTree.Workspace

variable {w w' : Workspace} {scope : NodeId} {symbol : SymbolId}

/-- A symbol was converted in a scope. -/
structure Conversion (w : Workspace) (scope : NodeId) (symbol : SymbolId) (w' : Workspace) : Prop where
  /-- The recursion through the members comes to its end. -/
  converts : Converts w scope [symbol] w'
  /-- Each due symbol has a new declaration. -/
  declared : ∀ X, Due w [symbol] X → ∃ id, w.store.nodes.size ≤ id ∧ w'.nodeOf? X = some id ∧ Represents w' X id
  /-- Each new declaration is that of one due symbol. -/
  only : ∀ id, w.store.nodes.size ≤ id → (∃ b, (w'.store.node id).body = .declaration b) →
    ∃! X, Due w [symbol] X ∧ w'.nodeOf? X = some id
  /-- The declaration of the symbol itself is the last child of the scope. -/
  top : w.Pending symbol → w'.nodeOf? symbol = some w.store.nodes.size ∧ w'.store.Under w.store.nodes.size scope ∧
    w'.store.node scope = (w.store.node scope).giveChildren [w.store.nodes.size]
  /-- The others hang below the declaration of a due symbol that they are members of. -/
  below : ∀ X id, Due w [symbol] X → X ≠ symbol → w'.nodeOf? X = some id → ∃ owner above,
    Due w [symbol] owner ∧ X ∈ w.store.membersOf owner ∧ w'.nodeOf? owner = some above ∧ w'.store.Under id above
  /-- All other symbols are bound as they were. -/
  earlier : ∀ X, ¬Due w [symbol] X →
    w'.index.bound.find? X = w.index.bound.find? X ∧ w'.nodeOf? X = w.nodeOf? X
  /-- All nodes that there were, except for the scope, are as they were. -/
  same : ∀ id < w.store.nodes.size, id ≠ scope → w'.store.node id = w.store.node id
  /-- Where nothing is due, nothing is added, listed or bound. -/
  idle : ¬w.Pending symbol → Quiet w w'

/-- A symbol that is not pending brings nothing. -/
theorem Converts.idle (converts : Converts w scope [symbol] w') (only : w.DeclarationsOnly)
    (known : ¬w.Pending symbol) : Quiet w w' := by
  cases converts with
  | known _ rest =>
    cases rest
    exact Quiet.refl w
  | undescribed _ _ rest =>
    cases rest
    exact quiet_report ..
  | fresh unbound described _ _ =>
    rw [only.declarationOf?_eq] at unbound
    exact absurd ⟨unbound, _, described⟩ known

/-- A pending symbol gets the last child of the scope. -/
theorem Converts.top (converts : Converts w scope [symbol] w') (only : w.DeclarationsOnly)
    (container : w.store.isContainer scope = true) (pending : w.Pending symbol) :
    w'.nodeOf? symbol = some w.store.nodes.size ∧ w'.store.Under w.store.nodes.size scope ∧
      w'.store.node scope = (w.store.node scope).giveChildren [w.store.nodes.size] := by
  obtain ⟨none, d, described⟩ := pending
  cases converts with
  | known bound _ =>
    rw [only.declarationOf?_eq, none] at bound
    cases bound
  | undescribed _ undescribed _ =>
    rw [undescribed] at described
    cases described
  | @fresh _ _ _ _ _ _ d _ _ members rest =>
    cases rest
    have first := (heads_declare container symbol d).quiet (quiet_announce _ scope w.store.nodes.size) only
    have only₀ := first.declarationsOnly only
    have inner := members.brings only₀ first.container
    have inside : scope < w.store.nodes.size := Store.lt_of_isContainer container
    refine ⟨?_, inner.under first.inside first.hangs, ?_⟩
    · rw [inner.nodeOf?_eq only₀ (first.not_due only)]
      exact first.resolves
    · rw [inner.same (Nat.lt_trans inside first.inside) (Nat.ne_of_lt inside)]
      exact first.widened

theorem Converts.conversion (converts : Converts w scope [symbol] w') (only : w.DeclarationsOnly)
    (container : w.store.isContainer scope = true) : Conversion w scope symbol w' := by
  have brings := converts.brings only container
  refine ⟨converts, fun X => brings.due, fun id above ⟨b, body⟩ => ?_, converts.top only container,
    fun X id due other eq => ?_, fun X other => ⟨brings.bound other, brings.nodeOf?_eq only other⟩,
    fun id => brings.same, converts.idle only⟩
  · obtain ⟨X, due, eq⟩ := brings.new above body
    exact ⟨X, ⟨due, eq⟩, fun Y here => brings.single here.1 due here.2 eq⟩
  · rcases brings.placed due eq with ⟨mem, _⟩ | placed
    · exact absurd (List.mem_singleton.1 mem) other
    · exact placed

/-- What a symbol resolves to after its conversion: what it resolved to before, or else its declaration. -/
theorem Conversion.answer (conversion : Conversion w scope symbol w') : w'.nodeOf? symbol =
    (w.nodeOf? symbol).or ((w.store.symbol symbol).description.map fun _ => w.store.nodes.size) := by
  by_cases pending : w.Pending symbol
  · obtain ⟨none, d, described⟩ := pending
    rw [(conversion.top ⟨none, d, described⟩).1, none, described]
    rfl
  · rw [(conversion.idle pending).nodeOf?]
    cases bound : w.nodeOf? symbol with
    | some id => rfl
    | none =>
      cases described : (w.store.symbol symbol).description with
      | some d => exact absurd ⟨bound, d, described⟩ pending
      | none => rfl

/-- A conversion that would declare anything is refused without a program, and in a scope that holds no children. -/
theorem convert_refused (only : w.DeclarationsOnly) (pending : w.Pending symbol)
    (closed : w.active = none ∨ (w.store.isContainer scope = false ∧ w.store.strays.hasLabel scope = true)) :
    ∃ e notice, w.convert scope symbol = (.error e, w) ∧ e.notice? = some notice ∧ notice.subject = .context := by
  cases active : w.active with
  | none => exact ⟨_, _, convert_inactive w scope symbol active, rfl, rfl⟩
  | some program =>
    obtain ⟨closed, label⟩ := closed.resolve_left fun inactive => by
      rw [active] at inactive
      cases inactive
    have would : w.wouldCreate symbol = true := by
      obtain ⟨none, d, described⟩ := pending
      rw [wouldCreate, only.declarationOf?_eq, none, described]
      rfl
    have refused : w.convert scope symbol = (.error (.notContainer (w.store.symbol symbol).kind.label
        (w.store.symbol symbol).name (w.store.display scope)), w) := by
      unfold convert noContainer
      simp [active, would, closed, label]
    exact ⟨_, _, refused, rfl, rfl⟩

/-- Converting a symbol is exact in any graph of members, as long as symbols are bound to declarations only and
the listeners can be put in order. While a program is active, and in a scope that holds children, it comes to its end
with the declarations of the symbols that are due, and answers with that of the symbol: none just if the symbol has
neither a node nor a description. Otherwise a conversion that would declare anything is refused, and nothing is
changed. -/
theorem convert_exact (w : Workspace) (scope : NodeId) (symbol : SymbolId) (only : w.DeclarationsOnly)
    (announced : w.canAnnounce = true) :
    (w.active.isSome → w.store.isContainer scope = true →
      ∃ w', w.convert scope symbol = (.ok (w'.nodeOf? symbol), w') ∧ Conversion w scope symbol w' ∧
        (w'.nodeOf? symbol = none ↔ w.nodeOf? symbol = none ∧ (w.store.symbol symbol).description = none)) ∧
    (w.Pending symbol →
      w.active = none ∨ (w.store.isContainer scope = false ∧ w.store.strays.hasLabel scope = true) →
      ∃ e notice, w.convert scope symbol = (.error e, w) ∧ e.notice? = some notice ∧ notice.subject = .context) := by
  refine ⟨fun active container => ?_, fun pending closed => convert_refused only pending closed⟩
  obtain ⟨converts, answer⟩ := converts_of_declarationsOnly (w.store.symbols.size + 1) symbol only container
    (Nat.lt_succ_of_le (card_unbound_le w))
  have conversion := converts.conversion only container
  generalize made : convertIn (w.store.symbols.size + 1) w scope symbol = answered at converts answer conversion
  have convert : w.convert scope symbol = (.ok answered.1, answered.2) := by
    unfold convert
    rw [if_neg (by simpa using Option.isSome_iff_ne_none.1 active), if_neg (by simp [container]),
      if_neg (by simp [announced]), made]
  have resolved : answered.2.nodeOf? symbol = answered.1 := conversion.answer.trans answer.symm
  refine ⟨answered.2, by rw [convert, resolved], conversion, ?_⟩
  rw [conversion.answer, Option.or_eq_none_iff, Option.map_eq_none_iff]

/-! ## A knot -/

/-- A class with members. -/
def knotted (name : String) (members : List SymbolId) : Symbol :=
  ⟨.str name, .classKind, none, some { members := members }⟩

/-- Symbols that are members of each other and of themselves. The fourth one is a member of two, the fifth one has a
node already, and the last one is not described. -/
def knot : Workspace :=
  { empty with
    active := some (.str "main")
    store :=
      { nodes := #[⟨.str "knot", .project, none, .project [1]⟩, ⟨.str "E", .classKind, some 0, .declaration {}⟩]
        symbols := #[knotted "A" [0, 1, 2, 4], knotted "B" [2, 0, 3], knotted "C" [1, 3, 5], knotted "D" [],
          knotted "E" [3], ⟨.str "F", .classKind, none, none⟩]
        indexes := OrdMap.empty.insert 0 ((Index.ofProject 0).bind 1 4)
        strays := .empty } }

theorem declarationsOnly_knot : knot.DeclarationsOnly := by
  intro symbol id bound
  have entry : symbol = 4 ∧ id = 1 := by
    have found : (OrdMap.empty.insert 4 1 : OrdMap SymbolId NodeId).find? symbol = some id := bound
    rw [OrdMap.find?_insert, OrdMap.find?_empty] at found
    split at found
    · exact ⟨‹_›, (Option.some.inj found).symm⟩
    · cases found
  rw [entry.2]
  exact ⟨{}, rfl⟩

/-- The whole knot is converted with its first symbol, and nothing without a program. -/
theorem convert_exact_knot :
    (knot.DeclarationsOnly ∧ knot.canAnnounce = true ∧ knot.active.isSome ∧ knot.store.isContainer 0 = true ∧
      knot.Pending 0) ∧
    (∃ w', knot.convert 0 0 = (.ok (w'.nodeOf? 0), w') ∧ Conversion knot 0 0 w' ∧
      (w'.nodeOf? 0 = none ↔ knot.nodeOf? 0 = none ∧ (knot.store.symbol 0).description = none)) ∧
    ∃ e notice, (knot.activate none).convert 0 0 = (.error e, knot.activate none) ∧ e.notice? = some notice ∧
      notice.subject = .context := by
  have pending : knot.Pending 0 := ⟨by rfl, _, rfl⟩
  have exact := convert_exact knot 0 0 declarationsOnly_knot rfl
  have idle := convert_exact (knot.activate none) 0 0 declarationsOnly_knot rfl
  exact ⟨⟨declarationsOnly_knot, rfl, rfl, rfl, pending⟩, exact.1 rfl rfl, idle.2 pending (Or.inl rfl)⟩

example : (knot.convert 0 0).2.index.bound.entries = [(4, 1), (0, 2), (1, 3), (2, 4), (3, 5)] := by rfl

end DocTree.Workspace
