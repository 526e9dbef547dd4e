import DocTree.Document.Describe
import DocTree.Proofs.Document.Types

/-!
# Descriptions read from documents

* `Loose w w' members` : members that no symbol owns yet, all made since `w`;
* `readTypeParameters_meets`, `readParameters_meets`, `readSignatures_meets` : types stay on the
  ground;
* `describe_meets` : so does a whole description, and its members are loose: whoever takes them is
  their only owner.
-/

namespace DocTree.Document

variable {g : Ground} {scope : Scope} {w w₁ : Workspace}

/-! ## Type parameters, parameters and signatures -/

/-- All of some types stay on the ground. -/
def AllWithin (g : Ground) (ts : List Ty) : Prop := ∀ t ∈ ts, t.Within g

theorem AllWithin.mono {ts : List Ty} {base base' : NodeId} (h : AllWithin (g.upTo base) ts) (le : base ≤ base') :
    AllWithin (g.upTo base') ts := fun t mem => (h t mem).mono le

theorem AllWithin.append {ts us : List Ty} (h : AllWithin g ts) (h' : AllWithin g us) : AllWithin g (ts ++ us) :=
  fun t mem => (List.mem_append.1 mem).elim (h t) (h' t)

theorem readTypeParameter_meets (fits : scope.Fits g) (path name : String) (v : Value) (drafting : Drafting g w) :
    Meets (readTypeParameter scope path name v) w (Reads g w fun g shape => AllWithin g shape.types) Whatever := by
  unfold readTypeParameter
  split
  · refine meets_bind (readType?_meets fits path _ drafting) ?_
    rintro c w₁ ⟨drafted, within⟩
    refine meets_bind (readType?_meets fits path _ drafted.drafting) ?_
    rintro d w₂ ⟨drafted', within'⟩
    refine meets_pure ⟨drafted.trans drafted', AllWithin.append (AllWithin.mono within drafted'.nodes_le) within'⟩
  · refine meets_bind (readType?_meets fits path _ drafting) ?_
    rintro c w₁ ⟨drafted, within⟩
    exact meets_pure ⟨drafted, AllWithin.append within (List.forall_mem_nil _)⟩

theorem readTypeParameterList_meets (fits : scope.Fits g) (path : String) (fields : List (String × Value))
    (drafting : Drafting g w) :
    Meets (readTypeParameterList scope path fields) w
      (Reads g w fun g shapes => AllWithin g (shapes.flatMap TypeParameterShape.types)) Whatever := by
  induction fields generalizing w with
  | nil => exact meets_pure ⟨.refl drafting, List.forall_mem_nil _⟩
  | cons field fields ih =>
    unfold readTypeParameterList
    refine meets_bind (readTypeParameter_meets fits _ _ _ drafting) fun c w₁ ⟨drafted, within⟩ => ?_
    refine meets_bind (ih drafted.drafting) fun d w₂ ⟨drafted', within'⟩ => ?_
    exact meets_pure ⟨drafted.trans drafted', (within.mono drafted'.nodes_le).append within'⟩

theorem readTypeParameters_meets (fits : scope.Fits g) (path : String) (v : Option Value)
    (drafting : Drafting g w) :
    Meets (readTypeParameters scope path v) w
      (Reads g w fun g shapes => AllWithin g (shapes.flatMap TypeParameterShape.types)) Whatever := by
  unfold readTypeParameters
  split
  · exact meets_pure ⟨.refl drafting, List.forall_mem_nil _⟩
  · split
    · exact meets_pure ⟨.refl drafting, List.forall_mem_nil _⟩
    · split
      · exact readTypeParameterList_meets (fits.hide _) path _ drafting
      · exact refuse_meets

theorem readParameterList_meets (fits : scope.Fits g) (path : String) (fields : List (String × Value))
    (drafting : Drafting g w) :
    Meets (readParameterList scope path fields) w
      (Reads g w fun g shapes => AllWithin g (shapes.flatMap (·.type.toList))) Whatever := by
  induction fields generalizing w with
  | nil => exact meets_pure ⟨.refl drafting, List.forall_mem_nil _⟩
  | cons field fields ih =>
    unfold readParameterList
    refine meets_bind (readType_meets fits _ _ drafting) fun c w₁ read => ?_
    obtain ⟨drafted, within⟩ := read
    refine meets_bind (ih drafted.drafting) fun d w₂ rest => ?_
    obtain ⟨drafted', within'⟩ := rest
    refine meets_pure ⟨drafted.trans drafted', AllWithin.append (fun t mem => ?_) within'⟩
    exact List.mem_singleton.1 mem ▸ within.mono drafted'.nodes_le

theorem readParameters_meets (fits : scope.Fits g) (path : String) (v : Option Value) (drafting : Drafting g w) :
    Meets (readParameters scope path v) w
      (Reads g w fun g shapes => AllWithin g (shapes.flatMap (·.type.toList))) Whatever := by
  unfold readParameters
  split
  · exact meets_pure ⟨.refl drafting, List.forall_mem_nil _⟩
  · split
    · exact meets_pure ⟨.refl drafting, List.forall_mem_nil _⟩
    · split
      · exact readParameterList_meets fits path _ drafting
      · exact meets_throw trivial

theorem readSignature_meets (fits : scope.Fits g) (path : String) (v : Value) (drafting : Drafting g w) :
    Meets (readSignature scope path v) w (Reads g w fun g shape => AllWithin g shape.types) Whatever := by
  unfold readSignature
  split
  · refine meets_bind (readTypeParameters_meets fits _ _ drafting) ?_
    rintro tps w₁ ⟨drafted, within⟩
    have fits' : (scope.within tps).Fits g := fits.hide _
    refine meets_bind (readParameters_meets fits' _ _ drafted.drafting) ?_
    rintro ps w₂ ⟨drafted', within'⟩
    refine meets_bind (readType?_meets fits' _ _ drafted'.drafting) ?_
    rintro r w₃ ⟨drafted'', within''⟩
    refine meets_pure ⟨(drafted.trans drafted').trans drafted'', AllWithin.append (AllWithin.append ?_ ?_) within''⟩
    · exact within.mono (Nat.le_trans drafted'.nodes_le drafted''.nodes_le)
    · exact within'.mono drafted''.nodes_le
  · exact refuse_meets

theorem readSignatures_meets (fits : scope.Fits g) (path : String) (i : Nat) (vs : List Value)
    (drafting : Drafting g w) :
    Meets (readSignatures scope path i vs) w
      (Reads g w fun g shapes => AllWithin g (shapes.flatMap SignatureShape.types)) Whatever := by
  induction vs generalizing w i with
  | nil => exact meets_pure ⟨.refl drafting, List.forall_mem_nil _⟩
  | cons v vs ih =>
    unfold readSignatures
    refine meets_bind (readSignature_meets fits _ _ drafting) fun c w₁ ⟨drafted, within⟩ => ?_
    refine meets_bind (ih (i + 1) drafted.drafting) fun d w₂ ⟨drafted', within'⟩ => ?_
    exact meets_pure ⟨drafted.trans drafted', (within.mono drafted'.nodes_le).append within'⟩

/-! ## Symbols of members -/

def Loose (w w' : Workspace) (members : List SymbolId) : Prop :=
  ∀ member ∈ members, w.store.symbols.size ≤ member ∧ member < w'.store.symbols.size ∧
    ∀ owner, member ∉ w'.store.membersOf owner

theorem Loose.later {w₂ : Workspace} {members : List SymbolId} (h : Loose w w₁ members) (later : Drafted g w₁ w₂) :
    Loose w w₂ members := by
  intro member mem
  obtain ⟨above, below, free⟩ := h member mem
  refine ⟨above, Nat.lt_of_lt_of_le below later.symbols_le, fun owner owned => ?_⟩
  by_cases inside : owner < w₁.store.symbols.size
  · refine free owner ?_
    rwa [Store.membersOf, ← later.symbol inside]
  · exact absurd below (Nat.not_lt_of_le (later.members (Nat.le_of_not_lt inside) owned))

theorem Loose.earlier {w₀ : Workspace} {members : List SymbolId} (h : Loose w w₁ members)
    (le : w₀.store.symbols.size ≤ w.store.symbols.size) : Loose w₀ w₁ members :=
  fun member mem => ⟨Nat.le_trans le (h member mem).1, (h member mem).2⟩

theorem top_le (catalog : Catalog g w.store) : g.top ≤ w.store.symbols.size := by
  by_contra beyond
  exact absurd (catalog.named (Nat.lt_of_not_le beyond)).1 (Nat.lt_irrefl _)

def withSymbol (w : Workspace) (s : Symbol) : Workspace := { w with store := (w.store.addSymbol s).2 }

theorem symbol_withSymbol (w : Workspace) (s : Symbol) (symbol : SymbolId) :
    (withSymbol w s).store.symbol symbol = if symbol = w.store.symbols.size then s else w.store.symbol symbol := by
  unfold Store.symbol withSymbol Store.addSymbol
  show ((w.store.symbols.push s)[symbol]?).getD default = _
  rw [Array.getElem?_push]
  split <;> rfl

theorem size_withSymbol (w : Workspace) (s : Symbol) :
    (withSymbol w s).store.symbols.size = w.store.symbols.size + 1 := Array.size_push s

theorem membersOf_withSymbol (w : Workspace) {s : Symbol} {d : Description} (described : s.description = some d)
    (symbol : SymbolId) : (withSymbol w s).store.membersOf symbol =
      if symbol = w.store.symbols.size then d.members else w.store.membersOf symbol := by
  refine Store.membersOf_describe ?_ (fun ne => ?_) symbol
  · rw [symbol_withSymbol, if_pos rfl, described]
  · rw [symbol_withSymbol, if_neg ne]

/-- What describing comes to: the types stay on the ground, and the members are loose. -/
structure Described (g : Ground) (w : Workspace) (d : Description) (w' : Workspace) : Prop where
  drafted : Drafted g w w'
  within : AllWithin (g.upTo w'.store.nodes.size) d.types
  loose : Loose w w' d.members

/-- A described member is one more symbol, and it is loose itself. -/
theorem Described.add {d : Description} (drafting : Drafting g w) (h : Described g w d w₁) {s : Symbol}
    (described : s.description = some d) :
    Drafted g w (withSymbol w₁ s) ∧ Loose w (withSymbol w₁ s) [w₁.store.symbols.size] := by
  obtain ⟨sound, bare, unbound⟩ := h.drafted.drafting
  have catalog := sound.catalog
  have symbol := symbol_withSymbol w₁ s
  have size := size_withSymbol w₁ s
  have top_le := top_le (g := g.upTo w.store.nodes.size) drafting.sound.catalog
  have new : ((withSymbol w₁ s).store.symbol w₁.store.symbols.size).description = some d := by
    rw [symbol, if_pos rfl, described]
  have catalog' : Catalog (g.upTo w₁.store.nodes.size) (withSymbol w₁ s).store := by
    refine catalog.describe ?_ ?_ ?_ new ?_ h.within ?_
    · rw [size]
      omega
    · intro X below ne
      rw [size] at below
      omega
    · exact fun named => absurd (catalog.named named).1 (Nat.lt_irrefl _)
    · intro X ne
      rw [symbol, if_neg ne]
    · intro member mem
      obtain ⟨above, below, free⟩ := h.loose member mem
      rw [size]
      exact ⟨Nat.le_trans top_le above, Nat.lt_succ_of_lt below, free⟩
  refine ⟨⟨.of_unbound sound.project sound.plugin catalog' (sound.layout.congr rfl rfl) sound.consistent bare unbound,
    h.drafted.nodes_le, ?_, ?_, ?_, h.drafted.programs, h.drafted.settings, h.drafted.active⟩, ?_⟩
  · rw [size]
    exact Nat.le_succ_of_le h.drafted.symbols_le
  · intro X below
    rw [symbol, if_neg (Nat.ne_of_lt (Nat.lt_of_lt_of_le below h.drafted.symbols_le))]
    exact h.drafted.symbol below
  · intro X member beyond mem
    rw [membersOf_withSymbol w₁ described] at mem
    split at mem
    · exact (h.loose member mem).1
    · exact h.drafted.members beyond mem
  · intro member mem
    rw [List.mem_singleton.1 mem, size]
    refine ⟨h.drafted.symbols_le, Nat.lt_succ_self _, fun owner owned => ?_⟩
    rw [membersOf_withSymbol w₁ described] at owned
    split at owned
    · exact absurd (h.loose _ owned).2.1 (Nat.lt_irrefl _)
    · exact absurd (catalog.members owned).2 (Nat.lt_irrefl _)

/-! ## Descriptions -/

theorem addSymbol_meets {s : Symbol} {d : Description} (drafting : Drafting g w) (h : Described g w d w₁)
    (described : s.description = some d) :
    Meets (addSymbol s) w₁ (fun id w' => Drafted g w w' ∧ Loose w w' [id]) Whatever :=
  meets_modifyGet (h.add drafting described)

def Members (g : Ground) (w : Workspace) (ids : List SymbolId) (w' : Workspace) : Prop :=
  Drafted g w w' ∧ Loose w w' ids

theorem Members.cons {w₂ : Workspace} {id : SymbolId} {ids : List SymbolId} (h : Members g w [id] w₁)
    (h' : Members g w₁ ids w₂) : Members g w (id :: ids) w₂ := by
  refine ⟨h.1.trans h'.1, fun member mem => ?_⟩
  rcases List.mem_cons.1 mem with rfl | mem
  · exact h.2.later h'.1 member (List.mem_singleton_self member)
  · exact h'.2.earlier h.1.symbols_le member mem

theorem nameMembers_meets (names : List Value) (drafting : Drafting g w) :
    Meets (nameMembers scope names) w (Members g w) Whatever := by
  induction names generalizing w with
  | nil => exact meets_pure ⟨.refl drafting, List.forall_mem_nil _⟩
  | cons name names ih =>
    unfold nameMembers
    have blank : Described g w {} w := ⟨.refl drafting, List.forall_mem_nil _, List.forall_mem_nil _⟩
    refine meets_bind (addSymbol_meets drafting blank rfl) fun id w₁ first => ?_
    exact meets_bind (ih first.1.drafting) fun ids w₂ rest => meets_pure (Members.cons first rest)

theorem readKind_meets (path : String) (v : Value) :
    Meets (readKind path v) w (fun _ w' => w' = w) Whatever := by
  unfold readKind
  split
  · split
    · split
      · exact meets_pure rfl
      · exact refuse_meets
    · exact meets_throw trivial
  · exact refuse_meets

theorem listed_meets (v : Option Value) : Meets (listed v) w (fun _ w' => w' = w) Whatever :=
  (parts_meets _).mono (fun _ _ h => h.1) fun _ _ _ => trivial

mutual

/-- A description that is read stays on the ground, and is the first to own its members. -/
theorem describe_meets {scope : Scope} (fits : scope.Fits g) (path : String) (kind : Kind) (v : Value) {w : Workspace}
    (drafting : Drafting g w) : Meets (describe scope path kind v) w (Described g w) Whatever := by
  match v with
  | .object fields =>
    unfold describe
    refine meets_bind (readTypeParameters_meets fits _ _ drafting) fun tps w₁ ⟨drafted₁, within₁⟩ => ?_
    have fits' : (scope.within tps).Fits g := fits.hide _
    refine meets_bind (readType?_meets fits' _ _ drafted₁.drafting) fun t w₂ ⟨drafted₂, within₂⟩ => ?_
    refine meets_bind (listed_meets _) ?_
    rintro vs _ rfl
    refine meets_bind (readTypes_meets fits' _ _ drafted₂.drafting) fun ext w₃ ⟨drafted₃, within₃⟩ => ?_
    refine meets_bind (listed_meets _) ?_
    rintro vs' _ rfl
    refine meets_bind (readTypes_meets fits' _ _ drafted₃.drafting) fun imp w₄ ⟨drafted₄, within₄⟩ => ?_
    refine meets_bind (listed_meets _) ?_
    rintro vs'' _ rfl
    refine meets_bind (readSignatures_meets fits' _ _ _ drafted₄.drafting) fun sigs w₅ ⟨drafted₅, within₅⟩ => ?_
    refine meets_bind (membersAmong_meets fits' _ kind fields drafted₅.drafting) fun ms w₆ ⟨drafted₆, loose⟩ => ?_
    have before : Drafted g w w₅ := (((drafted₁.trans drafted₂).trans drafted₃).trans drafted₄).trans drafted₅
    refine meets_pure ⟨before.trans drafted₆, ?_, loose.earlier before.symbols_le⟩
    have le₅ := drafted₆.nodes_le
    have le₄ := Nat.le_trans drafted₅.nodes_le le₅
    have le₃ := Nat.le_trans drafted₄.nodes_le le₄
    have le₂ := Nat.le_trans drafted₃.nodes_le le₃
    have le₁ := Nat.le_trans drafted₂.nodes_le le₂
    exact ((within₁.mono le₁).append (within₅.mono le₅)).append
      (((AllWithin.mono within₂ le₂).append (AllWithin.mono within₃ le₃)).append (AllWithin.mono within₄ le₄))
  | .null | .bool _ | .int _ | .float _ | .str _ | .list _ =>
    unfold describe
    exact meets_throw trivial

theorem membersAmong_meets {scope : Scope} (fits : scope.Fits g) (path : String) (kind : Kind)
    (fields : List (String × Value)) {w : Workspace} (drafting : Drafting g w) :
    Meets (membersAmong scope path kind fields) w (Members g w) Whatever := by
  match fields with
  | [] =>
    unfold membersAmong
    exact meets_pure ⟨.refl drafting, List.forall_mem_nil _⟩
  | (key, v) :: rest =>
    unfold membersAmong
    split
    · exact members_meets fits path kind v drafting
    · exact membersAmong_meets fits path kind rest drafting

theorem members_meets {scope : Scope} (fits : scope.Fits g) (path : String) (kind : Kind) (v : Value) {w : Workspace}
    (drafting : Drafting g w) : Meets (members scope path kind v) w (Members g w) Whatever := by
  match v with
  | .null =>
    unfold members
    exact meets_pure ⟨.refl drafting, List.forall_mem_nil _⟩
  | .object fields =>
    unfold members
    split
    · exact nameMembers_meets _ drafting
    · exact memberList_meets fits path fields drafting
  | .bool _ | .int _ | .float _ | .str _ | .list _ =>
    unfold members
    split
    · refine meets_bind (parts_meets _) ?_
      rintro vs _ ⟨rfl, _⟩
      exact nameMembers_meets _ drafting
    · exact refuse_meets

theorem memberList_meets {scope : Scope} (fits : scope.Fits g) (path : String)
    (fields : List (String × Value)) {w : Workspace} (drafting : Drafting g w) :
    Meets (memberList scope path fields) w (Members g w) Whatever := by
  match fields with
  | [] =>
    unfold memberList
    exact meets_pure ⟨.refl drafting, List.forall_mem_nil _⟩
  | (raw, spec) :: rest =>
    unfold memberList
    have next : ∀ id w₁, Members g w [id] w₁ → Meets (memberList scope path rest >>= fun ids => pure (id :: ids)) w₁
        (Members g w) Whatever := fun id w₁ first =>
      meets_bind (memberList_meets fits path rest first.1.drafting) fun ids w₂ others =>
        meets_pure (Members.cons first others)
    split
    · refine meets_bind (readType_meets fits _ _ drafting) fun t w₁ ⟨drafted, within⟩ => ?_
      refine meets_bind (addSymbol_meets (d := { type := some t }) drafting
        ⟨drafted, fun u mem => ?_, List.forall_mem_nil _⟩ rfl) next
      exact List.mem_singleton.1 mem ▸ within
    · refine meets_bind (readKind_meets _ _) ?_
      rintro kind _ rfl
      refine meets_bind (describe_meets fits _ kind spec drafting) fun d w₁ described => ?_
      exact meets_bind (addSymbol_meets drafting described rfl) next

end

end DocTree.Document
