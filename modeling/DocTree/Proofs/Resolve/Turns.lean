import DocTree.Proofs.Resolve.Conservative
import DocTree.Proofs.Resolve.Fixpoint

/-!
# The turns of a pass, one by one

* `ComesTo.passed` : what a pass that has come to a module has left alone;
* `Visits w policy rs m u` : what a pass with the report `rs` does with the module `m` when it comes to it in `u`;
* `exists_visits` : a pass that ends well comes to each of its modules;
* `visits_of_mem` : each entry of its report is of a module that it came to.
-/

namespace DocTree

open Workspace

variable {g : Ground} {policy : Policy} {known : OrdMap NodeId Value} {modules before rest : List NodeId}
  {w u w' : Workspace} {m : NodeId} {rs : Report} {r : ModuleReport}

/-- What a pass that has come to a module has left alone. -/
theorem ComesTo.passed (h : Sound g w) (comes : ComesTo w policy m u) : m ∈ w.modules ∧ ∃ before,
    (∀ m ∈ before, m ∈ w.modules) ∧ m ∉ before ∧ Passed g policy before w.opening u := by
  obtain ⟨_, before, after, rs, eq, ok⟩ := comes
  have ahead := h.ahead_of_quiet (quiet_opening w)
  have sub : ∀ m ∈ before, m ∈ w.modules := fun m mem => eq ▸ List.mem_append_left _ mem
  refine ⟨eq ▸ List.mem_append_right _ List.mem_cons_self, before, sub, fun mem => ?_,
    (passes_of_ok ahead sub ok).passed ahead sub⟩
  have nodup := h.nodup_modules
  rw [eq] at nodup
  exact (List.nodup_append.1 nodup).2.2 m mem m List.mem_cons_self rfl

theorem ComesTo.ahead (h : Sound g w) (comes : ComesTo w policy m u) : m ∈ w.modules ∧ Ahead g w.modules u := by
  obtain ⟨here, _, _, _, passed⟩ := comes.passed h
  exact ⟨here, (h.ahead_of_quiet (quiet_opening w)).passed passed⟩

/-- What a pass does with a module when it comes to it: nothing, if nothing is missing there; otherwise it
resolves the module, and there is an entry for it. -/
inductive Visits (w : Workspace) (policy : Policy) (rs : Report) (m : NodeId) (u : Workspace) : Prop
  | clean : u.store.missing m = [] → m ∉ rs.map (·.module) → Visits w policy rs m u
  | turn {r : ModuleReport} {u' : Workspace} : u.store.missing m ≠ [] → r ∈ rs → r.module = m →
      u.resolveModule ⟨m, w.modules, w.known.find? m, policy⟩ (u.store.missing m) = (.ok r, u') →
      Visits w policy rs m u

theorem nodup_report (h : Sound g w) (ask : w.policy = .ok policy) (ok : w.resolve = (.ok (some rs), w')) :
    (rs.map (·.module)).Sublist w.modules ∧ (rs.map (·.module)).Nodup := by
  obtain ⟨v, u, _, ahead, passes, _⟩ := (resolution_of_ok h ask ok).turns h
  have sublist := passes.sublist ahead fun m mem => mem
  exact ⟨sublist, h.nodup_modules.sublist sublist⟩

/-- A pass that ends well comes to each of its modules. -/
theorem exists_visits (h : Sound g w) (ask : w.policy = .ok policy) (ok : w.resolve = (.ok (some rs), w'))
    (here : m ∈ w.modules) : ∃ u, ComesTo w policy m u ∧ Visits w policy rs m u := by
  have ahead := h.ahead_of_quiet (quiet_opening w)
  have nodup := (nodup_report h ask ok).2
  obtain ⟨before, after, eq⟩ := List.append_of_mem here
  obtain ⟨last, went, _⟩ := exists_of_resolve h ask ok
  have sub : ∀ m ∈ before, m ∈ w.modules := fun m mem => eq ▸ List.mem_append_left _ mem
  obtain ⟨rs₁, rs₂, u, rfl, first, later⟩ := exists_of_resolveModules_append eq went
  have comes : ComesTo w policy m u := ⟨ask, before, after, rs₁, eq, first⟩
  have ahead' := (comes.ahead h).2
  refine ⟨u, comes, ?_⟩
  by_cases none : u.store.missing m = []
  · refine .clean none fun mem => ?_
    rw [resolveModules_clean ahead'.sound.layout none] at later
    have sub' : ∀ m ∈ after, m ∈ w.modules := fun m mem =>
      eq ▸ List.mem_append_right _ (List.mem_cons_of_mem _ mem)
    have apart := h.nodup_modules
    rw [eq] at apart
    rw [List.map_append] at mem
    rcases List.mem_append.1 mem with mem | mem
    · have mem := ((passes_of_ok ahead sub first).sublist ahead sub).subset mem
      exact (List.nodup_append.1 apart).2.2 m mem m List.mem_cons_self rfl
    · have mem := ((passes_of_ok ahead' sub' later).sublist ahead' sub').subset mem
      exact (List.nodup_cons.1 (List.nodup_append.1 apart).2.1).1 mem
  · have fits := ahead'.fits ⟨m, w.modules, w.known.find? m, policy⟩ rfl here
    rw [resolveModules_cons ahead'.sound.layout none] at later
    rcases resolveModule_cases fits none with ⟨r, w₁, eq, turn⟩ | ⟨w₁, eq, _⟩
    · simp only [eq] at later
      generalize resolveModules w.known policy w.modules after w₁ = answer at later
      obtain ⟨_ | rs₃, last'⟩ := answer <;> cases later
      exact .turn none (List.mem_append_right _ List.mem_cons_self) (turn.gains fits).1 eq
    · rw [eq] at later
      cases later

/-- Each entry of the report is of a module that the pass came to. -/
theorem visits_of_mem (h : Sound g w) (ask : w.policy = .ok policy) (ok : w.resolve = (.ok (some rs), w'))
    (mem : r ∈ rs) : ∃ u u', ComesTo w policy r.module u ∧ u.store.missing r.module ≠ [] ∧
      u.resolveModule ⟨r.module, w.modules, w.known.find? r.module, policy⟩ (u.store.missing r.module) = (.ok r, u') := by
  obtain ⟨sublist, nodup⟩ := nodup_report h ask ok
  have listed : r.module ∈ rs.map (·.module) := List.mem_map_of_mem mem
  obtain ⟨u, comes, visits⟩ := exists_visits h ask ok (sublist.subset listed)
  cases visits with
  | clean _ none => exact absurd listed none
  | @turn r' u' some mem' same resolved =>
    obtain rfl : r' = r := List.inj_on_of_nodup_map nodup mem' mem same
    exact ⟨u, u', comes, some, resolved⟩

end DocTree
