import DocTree.Proofs.Document.Provenance
import DocTree.Proofs.Resolve.Completeness
import DocTree.Proofs.Resolve.Observed

/-!
# The program that is active during a pass

Whatever a pass creates for a module is created while the program is active that the document names for the module.

* `Supervised programs w policy t turn` : a module of the document, with what an observer takes down in its turn;
* `Overhears.isSome_known` : a module for which something is created is known to come from a program;
* `Overhears.supervised` : what is created for it is created while that program is active;
* `supervised_of_opened` : so it is for each module of a document, in each first pass.
-/

namespace DocTree

open Workspace

/-! ## Lists side by side -/

theorem forall₂_zip {α β γ : Type} {R : α → β → Prop} {S : β → γ → Prop} {as : List α} {bs : List β} {cs : List γ}
    (h : List.Forall₂ R as bs) (h' : List.Forall₂ S bs cs) :
    List.Forall₂ (fun a p => R a p.1 ∧ S p.1 p.2) as (bs.zip cs) := by
  induction h generalizing cs with
  | nil => exact .nil
  | cons here _ ih =>
    cases h' with
    | cons next rest => exact .cons ⟨here, next⟩ (ih rest)

variable {g : Ground} {w : Workspace} {policy : Policy} {m : NodeId} {new : List Creation} {document : Value}
  {entries : List Value}

/-- A module for which something is created is known to come from a program. -/
theorem Overhears.isSome_known (overhears : Overhears w policy m new) (h : Modular g w) (sound : Sound g w)
    (some : new ≠ []) : (w.known.find? m).isSome := by
  obtain ⟨u, comes, p, performed, created⟩ := overhears
  obtain ⟨c, mem⟩ := List.exists_mem_of_ne_nil _ some
  obtain ⟨_, id, internal, _⟩ := created c mem
  by_cases none : u.store.missing m = []
  · let job : Job := ⟨m, w.modules, w.known.find? m, policy⟩
    have plan : job.plan (job.opening u) = [] := by
      have same : (job.opening u).workspace.store = u.store := rfl
      unfold Job.plan
      rw [same, none]
      rfl
    rw [show job.plan (job.opening u) = _ from plan] at performed
    cases performed
    cases internal
  · obtain ⟨_, before, after, rs, eq, ok⟩ := comes
    have quiet := quiet_opening w
    have passes := passes_of_ok (sound.ahead_of_quiet quiet) (fun m mem => eq ▸ List.mem_append_left _ mem) ok
    exact h.known_of_missing sound quiet eq passes none

/-- A module of the document, and what an observer takes down in its turn: creations of the namespace for the module,
which hangs below it, and of declarations below that, all while the program is active that the document names. -/
structure Supervised (programs : List (String × Value)) (w : Workspace) (policy : Policy) (t : Value)
    (turn : NodeId × List Creation) : Prop where
  stems : Document.Stems programs w t turn.1
  creations : ∃ u p, ComesTo w policy turn.1 u ∧
    let job : Job := ⟨turn.1, w.modules, w.known.find? turn.1, policy⟩
    job.perform (job.plan (job.opening u)) (job.opening u) = .ok ⟨⟩ p ∧
      ∀ c ∈ turn.2, c.program = some (Document.programOf programs t) ∧ ∃ id, p.internal = some id ∧
        id ∈ p.workspace.store.children turn.1 ∧ p.workspace.store.Below id c.id

/-- What is created in the turn of a module is created while the program is active that its entry names. -/
theorem Overhears.supervised {t : Value} (overhears : Overhears w policy m new) (ready : Document.Ready document g w)
    (modular : Modular g w) (stems : Document.Stems (Document.programsOf document.fields) w t m) :
    Supervised (Document.programsOf document.fields) w policy t (m, new) := by
  obtain ⟨u, comes, p, performed, created⟩ := id overhears
  refine ⟨stems, u, p, comes, performed, fun c mem => ?_⟩
  obtain ⟨program, inside⟩ := created c mem
  have known := overhears.isSome_known modular ready.sound (List.ne_nil_of_mem mem)
  exact ⟨program.trans (stems.known (ready.tracked.holds known)), inside⟩

/-- After loading, and in each first pass, the right program is active. No program is active after loading; every
module that holds anything is known to come from the program that its entry names, and the project from the one of the
last module; a pass over the document, under any options, creates declarations just in the turns of its modules, each in
the namespace for the module, while the program that its entry names is active; and none is active when it ends. -/
theorem supervised_of_opened (opened : w.Opened document)
    (listed : Value.lookup "modules" document.fields = some (.list entries)) :
    Document.Provenance document entries w ∧ ∃ policy rs w' turns, w.policy = .ok policy ∧
      w.resolve = (.ok (some rs), w') ∧ w'.active = none ∧
      (w.listen creationEvent (.int 0) .noteCreation).resolve =
        (.ok (some rs), w'.observed (w.creations ++ turns.flatMap Prod.snd)) ∧
      turns.map Prod.fst = w.store.children w.project ∧
      List.Forall₂ (Supervised (Document.programsOf document.fields) w policy) entries turns := by
  have provenance := opened.provenance listed
  obtain ⟨g, ready⟩ := opened.ready
  have modular : Modular g w := by
    refine ready.modular ?_
    cases document with
    | object fields => exact ⟨fields, entries, rfl, listed⟩
    | _ => cases listed
  obtain ⟨text, linkOnly, ask⟩ := policy_of_configured ready.configured
  rcases resolve_cases ready.sound ask with ⟨rs, w', ok, resolution⟩ | ⟨_, _, _, v, quiet, stops⟩
  · have inactive := (resolution.passed ready.sound).inactive provenance.inactive
    obtain ⟨news, observed, overheard⟩ := resolve_observed ready.sound ask ok w.creations
    rw [← listen_observer] at observed
    refine ⟨provenance, _, rs, w', (w.store.children w.project).zip news, ask, ok, inactive, ?_⟩
    have cases := modular.modules_cases ready.sound
    rw [← ready.sound.project] at cases
    rcases cases with ⟨bare, modules⟩ | ⟨_, modules⟩ <;> rw [modules] at overheard
    · cases overheard with
      | @cons _ new _ _ overhears rest =>
        cases rest
        have none : new = [] := by
          by_contra some
          exact ready.tracked.holds (overhears.isSome_known modular ready.sound some) bare
        have entries := provenance.modules
        rw [bare] at entries ⊢
        cases entries
        subst none
        exact ⟨observed, rfl, .nil⟩
    · have length := overheard.length_eq
      have supervised := (forall₂_zip provenance.modules overheard).imp fun _ _ ⟨stems, overhears⟩ =>
        overhears.supervised ready modular stems
      refine ⟨?_, List.map_fst_zip (Nat.le_of_eq length), supervised⟩
      rw [List.flatMap_def, List.map_snd_zip (Nat.le_of_eq length.symm)]
      exact observed
  · exact absurd stops (modular.not_stops ready.sound quiet)

def moduleEntry (name program : String) (exports : List Value) : Value :=
  .object [("name", .str name), ("program", .str program), ("exports", .list exports)]

/-- A document with two modules that come from different programs; each refers to something that it does not export. -/
def neighbours : Value := .object [
  ("programs", .object [
    ("left", .object [("symbols", .object [
      ("f", .object [("kind", .str "variable"), ("type", .str "Here")]),
      ("Here", .object [("kind", .str "interface"), ("members", .object [("x", .str "number")])])])]),
    ("right", .object [("symbols", .object [
      ("g", .object [("kind", .str "variable"), ("type", .str "There")]),
      ("There", .object [("kind", .str "interface")])])])]),
  ("modules", .list [moduleEntry "a" "left" [.str "f"], moduleEntry "b" "right" [.str "g"]])]

/-- The workspace that this document leads to. -/
def besideNeighbours : Workspace := (withPlugin.load (.str "demo") neighbours).2

theorem supervised_of_opened_neighbours :
    ((besideNeighbours.listen creationEvent (.int 0) .noteCreation).resolve.2.creations.map fun c =>
      (c.name.text, c.program.map Value.text)) = [("internal", some "left"), ("Here", some "left"), ("x", some "left"),
        ("internal", some "right"), ("There", some "right")] ∧
    let entries := [moduleEntry "a" "left" [.str "f"], moduleEntry "b" "right" [.str "g"]]
    Document.Provenance neighbours entries besideNeighbours ∧ ∃ policy rs w' turns,
      besideNeighbours.policy = .ok policy ∧ besideNeighbours.resolve = (.ok (some rs), w') ∧ w'.active = none ∧
      (besideNeighbours.listen creationEvent (.int 0) .noteCreation).resolve =
        (.ok (some rs), w'.observed (besideNeighbours.creations ++ turns.flatMap Prod.snd)) ∧
      turns.map Prod.fst = besideNeighbours.store.children besideNeighbours.project ∧
      List.Forall₂ (Supervised (Document.programsOf neighbours.fields) besideNeighbours policy) entries turns :=
  ⟨by decide +kernel, supervised_of_opened (opened_of_isOk (by decide +kernel)) rfl⟩

end DocTree
