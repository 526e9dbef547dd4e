import DocTree.Proofs.Resolve.Underway
import DocTree.Proofs.Workspace.Search
import Mathlib.Data.List.Perm.Subperm

/-!
# Rounds of resolution

* `Course job start tried pending p` : the states that the rounds for a module go through, with the
  symbols tried so far and those still to be tried in this round; invariants of a run are proved by
  induction on it;
* `Course.underway` : the module is under way all the time, and no symbol is tried twice;
* `Job.batches` : the symbols that `Job.rounds` resolves, round by round; `perform_batches` : the rounds
  resolve just these;
* `rounds_meets` : the rounds go on until nothing is left to try, unless the module gets stuck.
-/

namespace DocTree

open Workspace

namespace Job

def nextRound (p : Progress) : Progress := { p with report := { p.report with rounds := p.report.rounds + 1 } }

def round (job : Job) (missing : List SymbolId) : Step Unit := do
  onReport fun r => { r with rounds := r.rounds + 1 }
  job.resolveAll missing

/-- The symbols that the rounds resolve, round by round. -/
def batches (job : Job) : Nat → List SymbolId → List SymbolId → Progress → List (List SymbolId)
  | 0, _, _, _ => []
  | _ + 1, _, [], _ => []
  | n + 1, tried, missing, p =>
    missing ::
      match job.round missing p with
      | .error _ _ => []
      | .ok _ q =>
        match job.untried (tried ++ missing) q with
        | .error _ => []
        | .ok next => job.batches n (tried ++ missing) next q

/-- Goes through the rounds with given symbols. -/
def perform (job : Job) : List (List SymbolId) → Step Unit
  | [] => return ()
  | batch :: rest => do
    job.round batch
    job.perform rest

variable {job : Job} {n : Nat} {tried missing : List SymbolId} {p q : Progress}

/-- One round, and then the others. -/
theorem rounds_succ (some : missing ≠ []) : job.rounds (n + 1) tried missing p =
    match job.round missing p with
    | .error e q => .error e q
    | .ok _ q =>
      match job.untried (tried ++ missing) q with
      | .error e => .error e q
      | .ok next => job.rounds n (tried ++ missing) next q := by
  obtain ⟨symbol, symbols, rfl⟩ := List.exists_cons_of_ne_nil some
  have eq : job.round (symbol :: symbols) p = job.resolveAll (symbol :: symbols) (nextRound p) := rfl
  rw [eq]
  conv_lhs => unfold rounds
  show EStateM.bind (job.resolveAll (symbol :: symbols)) _ (nextRound p) = _
  unfold EStateM.bind
  cases job.resolveAll (symbol :: symbols) (nextRound p) with
  | error e q => rfl
  | ok a q =>
    show (match job.untried (tried ++ symbol :: symbols) q with
      | .error e => throw e
      | .ok next => job.rounds n (tried ++ symbol :: symbols) next : Step Unit) q = _
    dsimp only
    cases job.untried (tried ++ symbol :: symbols) q <;> rfl

theorem batches_succ (some : missing ≠ []) : job.batches (n + 1) tried missing p = missing ::
    match job.round missing p with
    | .error _ _ => []
    | .ok _ q =>
      match job.untried (tried ++ missing) q with
      | .error _ => []
      | .ok next => job.batches n (tried ++ missing) next q := by
  obtain ⟨symbol, symbols, rfl⟩ := List.exists_cons_of_ne_nil some
  rfl

/-- Rounds that end well resolve just their batches, one after the other. -/
theorem perform_batches (ok : job.rounds n tried missing p = .ok () q) :
    job.perform (job.batches n tried missing p) p = .ok () q := by
  induction n generalizing tried missing p with
  | zero => exact ok
  | succ n ih =>
    by_cases some : missing = []
    · subst some
      exact ok
    · rw [rounds_succ some] at ok
      rw [batches_succ some]
      show EStateM.bind (job.round missing) (fun _ => job.perform _) p = _
      unfold EStateM.bind
      cases first : job.round missing p with
      | error e q' =>
        rw [first] at ok
        cases ok
      | ok a q' =>
        simp only [first] at ok ⊢
        cases next : job.untried (tried ++ missing) q' with
        | error e =>
          rw [next] at ok
          cases ok
        | ok next' =>
          simp only [next] at ok ⊢
          exact ih ok

end Job

/-! ## The course of a run -/

/-- The states that the rounds for a module go through. -/
inductive Course (job : Job) (start : Progress) : List SymbolId → List SymbolId → Progress → Prop
  | start : Course job start [] (start.workspace.store.missing job.module) (Job.nextRound start)
  | again {tried next : List SymbolId} {p : Progress} : Course job start tried [] p →
      job.untried tried p = .ok next → next ≠ [] → Course job start tried next (Job.nextRound p)
  | step {tried rest : List SymbolId} {symbol : SymbolId} {p q : Progress} :
      Course job start tried (symbol :: rest) p → Resolves job p symbol q → Course job start (tried ++ [symbol]) rest q

variable {g : Ground} {job : Job} {start p q : Progress} {tried pending next : List SymbolId} {symbol : SymbolId}

/-- What is left to try: what is missing in the namespace and was not tried. -/
theorem mem_untried (symbol : SymbolId) (h : Sound g p.workspace) (eq : job.untried tried p = .ok next) :
    next.Nodup ∧ (symbol ∈ next ↔ job.policy.linkOnly = false ∧ symbol ∉ tried ∧
      ∃ id, p.internal = some id ∧ symbol ∈ p.workspace.store.missing id) := by
  unfold Job.untried at eq
  cases internal : p.internal with
  | none =>
    rw [internal] at eq
    cases eq
    exact ⟨List.nodup_nil, nofun, fun ⟨_, _, _, here, _⟩ => nomatch here⟩
  | some id =>
    simp only [internal, h.layout.search_eq] at eq
    cases linkOnly : job.policy.linkOnly with
    | true =>
      simp only [linkOnly, if_true] at eq
      cases eq
      exact ⟨List.nodup_nil, nofun, nofun⟩
    | false =>
      simp only [linkOnly, Bool.false_eq_true, if_false] at eq
      cases eq
      refine ⟨(Store.nodup_missing _ id).filter _, ?_⟩
      rw [List.mem_filter]
      simp only [Bool.not_eq_true', List.contains_eq_mem, decide_eq_false_iff_not, Option.some.injEq, true_and,
        exists_eq_left']
      exact and_comm

theorem exists_untried (h : Sound g p.workspace) (job : Job) (tried : List SymbolId) :
    ∃ next, job.untried tried p = .ok next := by
  unfold Job.untried
  cases p.internal with
  | none => exact ⟨_, rfl⟩
  | some id =>
    simp only [h.layout.search_eq]
    split <;> exact ⟨_, rfl⟩

namespace Course

/-- A module is under way in the whole course of its run, and no symbol is tried twice. -/
theorem underway (h : Fits g job start) (fresh : start.internal = none) (course : Course job start tried pending p) :
    Underway g job start.workspace tried p ∧ (tried ++ pending).Nodup ∧
      ∀ symbol ∈ tried ++ pending, symbol < g.top ∧ start.workspace.nodeOf? symbol = none := by
  induction course with
  | start =>
    exact ⟨(Underway.start h fresh).noted (Quiet.refl _) _ fun _ mem => mem, Store.nodup_missing _ _, fun symbol mem =>
      ⟨h.sound.layout.lt_top_of_missing mem, h.sound.unbound_of_missing mem⟩⟩
  | @again tried next p _ eq _ ih =>
    obtain ⟨under, nodup, new⟩ := ih
    rw [List.append_nil] at nodup new
    have found := fun symbol => (mem_untried symbol under.fits.sound eq).2
    refine ⟨under.noted (Quiet.refl _) _ fun _ mem => mem, ?_, fun symbol mem => ?_⟩
    · refine List.nodup_append.2 ⟨nodup, (mem_untried 0 under.fits.sound eq).1, fun a mem b mem' same => ?_⟩
      exact ((found b).1 mem').2.1 (same ▸ mem)
    · rcases List.mem_append.1 mem with mem | mem
      · exact new symbol mem
      · obtain ⟨_, _, id, _, missing⟩ := (found symbol).1 mem
        refine ⟨under.fits.sound.layout.lt_top_of_missing missing, ?_⟩
        cases eq : start.workspace.nodeOf? symbol with
        | none => rfl
        | some id' =>
          have bound := under.bound eq
          rw [under.fits.sound.unbound_of_missing missing] at bound
          cases bound
  | @step tried rest symbol p q _ resolves ih =>
    obtain ⟨under, nodup, new⟩ := ih
    obtain ⟨named, unbound⟩ := new symbol (List.mem_append_right _ List.mem_cons_self)
    have untried : symbol ∉ tried := fun mem =>
      (List.nodup_append.1 nodup).2.2 symbol mem symbol List.mem_cons_self rfl
    rw [List.append_assoc]
    exact ⟨under.step named (under.unbound unbound named untried) resolves, nodup, new⟩

/-- The symbol whose turn it is has no node. -/
theorem turn (h : Fits g job start) (fresh : start.internal = none)
    (course : Course job start tried (symbol :: pending) p) :
    symbol ∉ tried ∧ symbol < g.top ∧ p.workspace.nodeOf? symbol = none := by
  obtain ⟨under, nodup, new⟩ := course.underway h fresh
  obtain ⟨named, unbound⟩ := new symbol (List.mem_append_right _ List.mem_cons_self)
  have untried : symbol ∉ tried := fun mem =>
    (List.nodup_append.1 nodup).2.2 symbol mem symbol List.mem_cons_self rfl
  exact ⟨untried, named, under.unbound unbound named untried⟩

/-- The symbols that were missing at first are tried. -/
theorem covers (course : Course job start tried pending p) :
    ∀ symbol ∈ start.workspace.store.missing job.module, symbol ∈ tried ++ pending := by
  induction course with
  | start => exact fun symbol mem => mem
  | again _ _ _ ih =>
    intro symbol mem
    have before := ih symbol mem
    rw [List.append_nil] at before
    exact List.mem_append_left _ before
  | step _ _ ih =>
    intro symbol mem
    rw [List.append_assoc]
    exact ih symbol mem

/-- Every round before this one tried at least one symbol. -/
theorem rounds_le (zero : start.report.rounds = 0) (some : start.workspace.store.missing job.module ≠ [])
    (course : Course job start tried pending p) :
    p.report.rounds ≤ tried.length + if pending = [] then 0 else 1 := by
  have kept : ∀ {p q : Progress} {symbol : SymbolId}, Resolves job p symbol q → q.report.rounds = p.report.rounds := by
    intro p q symbol resolves
    cases resolves with
    | undescribed _ _ _ _ opens => cases opens <;> rfl
    | synthesized _ _ _ _ opens => cases opens <;> rfl
    | _ => rfl
  induction course with
  | start =>
    show start.report.rounds + 1 ≤ _
    rw [if_neg some, zero]
    omega
  | @again tried next p _ _ more ih =>
    show p.report.rounds + 1 ≤ _
    rw [if_neg more]
    exact Nat.succ_le_succ ih
  | @step tried rest symbol p q _ resolves ih =>
    rw [kept resolves, List.length_append]
    rw [if_neg (List.cons_ne_nil _ _)] at ih
    exact Nat.le_trans ih (Nat.le_add_right _ _)

end Course

/-- The rounds come to a symbol that the module is stuck with. -/
def Halts (job : Job) (start : Progress) : Prop :=
  ∃ tried symbol rest p, Course job start tried (symbol :: rest) p ∧ Stuck job p.workspace symbol

/-- The rounds break off at a symbol that the module is stuck with. -/
def Halted (job : Job) (start : Progress) (e : Error) (q : Progress) : Prop :=
  ∃ tried symbol rest p, Course job start tried (symbol :: rest) p ∧ Breaks job p symbol e q

theorem Halted.halts {e : Error} (h : Halted job start e q) : Halts job start := by
  obtain ⟨tried, symbol, rest, p, course, breaks⟩ := h
  exact ⟨tried, symbol, rest, p, course, breaks.stuck⟩

theorem resolveAll_meets (h : Fits g job start) (fresh : start.internal = none)
    (course : Course job start tried pending p) :
    Meets (job.resolveAll pending) p (fun _ q => Course job start (tried ++ pending) [] q)
      (Halted job start) := by
  induction pending generalizing tried p with
  | nil => exact meets_pure ((List.append_nil tried).symm ▸ course)
  | cons symbol rest ih =>
    unfold Job.resolveAll
    obtain ⟨_, named, unbound⟩ := course.turn h fresh
    have resolved := resolveSymbol_meets (course.underway h fresh).1.fits named unbound
    refine meets_bind (resolved.mono (fun _ _ here => here) fun _ _ breaks => ?_) fun _ q resolves => ?_
    · exact ⟨tried, symbol, rest, p, course, breaks⟩
    · have more := ih (course.step resolves)
      rwa [List.append_assoc] at more

theorem length_le_of_nodup {top : Nat} {symbols : List SymbolId} (nodup : symbols.Nodup)
    (below : ∀ symbol ∈ symbols, symbol < top) : symbols.length ≤ top := by
  have sub : symbols ⊆ List.range top := fun symbol mem => List.mem_range.2 (below symbol mem)
  exact (nodup.subperm sub).length_le.trans (Nat.le_of_eq List.length_range)

/-- The rounds for a module go on until nothing is left to try, unless the module gets stuck. -/
theorem rounds_meets (h : Fits g job start) (fresh : start.internal = none) {n : Nat}
    (here : (pending = [] ∧ Course job start tried [] p ∧ job.untried tried p = .ok []) ∨
      (pending ≠ [] ∧ Course job start tried pending (Job.nextRound p)))
    (enough : g.top < n + tried.length) :
    Meets (job.rounds n tried pending) p (fun _ q =>
      Course job start (tried ++ (job.batches n tried pending p).flatten) [] q ∧
        job.untried (tried ++ (job.batches n tried pending p).flatten) q = .ok []) (Halted job start) := by
  induction n generalizing tried pending p with
  | zero =>
    rcases here with ⟨rfl, course, done⟩ | ⟨_, course⟩
    · exact meets_pure (by simpa [Job.batches] using And.intro course done)
    · obtain ⟨_, nodup, new⟩ := course.underway h fresh
      have few := length_le_of_nodup nodup fun symbol mem => (new symbol mem).1
      rw [List.length_append] at few
      unfold SymbolId at *
      omega
  | succ n ih =>
    rcases here with ⟨rfl, course, done⟩ | ⟨more, course⟩
    · exact meets_pure (by simpa [Job.batches] using And.intro course done)
    · have all := resolveAll_meets h fresh course
      have some : 0 < pending.length := List.length_pos_iff.2 more
      have eq : job.round pending p = job.resolveAll pending (Job.nextRound p) := rfl
      unfold Meets
      rw [Job.rounds_succ more, Job.batches_succ more, eq]
      cases result : job.resolveAll pending (Job.nextRound p) with
      | error e q => exact all.of_error result
      | ok _ q =>
        have course := all.of_ok result
        obtain ⟨next, left⟩ := exists_untried (course.underway h fresh).1.fits.sound job (tried ++ pending)
        have rest : Meets (job.rounds n (tried ++ pending) next) q _ _ := ih (by
          by_cases done : next = []
          · subst done
            exact Or.inl ⟨rfl, course, left⟩
          · exact Or.inr ⟨done, course.again left done⟩) (by
          rw [List.length_append]
          unfold SymbolId at *
          omega)
        simp only [left, List.flatten_cons, ← List.append_assoc]
        exact rest

end DocTree
