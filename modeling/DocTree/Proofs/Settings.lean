import DocTree.Plugin

/-!
# Options that hold what they should

* `Settings.Typed s` : every value set is of the kind that its option takes; kept by `set`;
* `Configured s` : both options of the plugin are declared, and `Typed` holds;
* `policy_of_configured` : the options then say how to resolve symbols.
-/

namespace DocTree

namespace Settings

/-- Every value set is of the kind that its option takes. -/
def Typed (s : Settings) : Prop :=
  ∀ key d v, s.declared.find? key = some d → s.values.find? key = some v → d.kind.admits v = true

variable {s s' : Settings} {name v : Value}

/-- Setting an option goes by its declaration. -/
theorem set_ok (h : s.set name v = .ok s') :
    ∃ key d, name.key? = some key ∧ s.declared.find? key = some d ∧ d.kind.admits v = true ∧
      s' = { s with values := s.values.insert key v } := by
  unfold set declaration keyOf OptionDeclaration.validate at h
  cases key : name.key? with
  | none =>
    rw [key] at h
    cases h
  | some key' =>
    rw [key] at h
    cases declared : s.declared.find? key' with
    | none =>
      simp only [bind, Except.bind, declared] at h
      cases h
    | some d =>
      simp only [bind, Except.bind, declared, pure, Except.pure] at h
      by_cases admits : d.kind.admits v = true
      · rw [if_pos admits] at h
        cases h
        exact ⟨key', d, rfl, declared, admits, rfl⟩
      · rw [if_neg admits] at h
        cases h

theorem Typed.set (typed : s.Typed) (h : s.set name v = .ok s') : s'.Typed ∧ s'.declared = s.declared := by
  obtain ⟨key, d, _, declared, admits, rfl⟩ := set_ok h
  refine ⟨fun key' d' v' declared' value => ?_, rfl⟩
  simp only [OrdMap.find?_insert] at value
  split at value
  · rename_i here
    subst here
    cases value
    rw [declared] at declared'
    cases declared'
    exact admits
  · exact typed key' d' v' declared' value

/-- Both options of the plugin are declared, and hold what they should. -/
structure Configured (s : Settings) : Prop where
  typed : s.Typed
  nameSpace : s.declared.find? (.text "internalNamespace") = some namespaceOption
  linkOnly : s.declared.find? (.text "noMissingExports") = some linkOnlyOption

theorem Configured.set (h : s.Configured) (ok : s.set name v = .ok s') : s'.Configured := by
  obtain ⟨typed, same⟩ := h.typed.set ok
  exact ⟨typed, same ▸ h.nameSpace, same ▸ h.linkOnly⟩

theorem admits_text {v : Value} (h : OptionKind.text.admits v = true) : ∃ text, v = .str text := by
  cases v <;> first | exact ⟨_, rfl⟩ | cases h

theorem Configured.get_nameSpace (h : s.Configured) : s.get namespaceOption.name =
    .ok ((s.values.find? (.text "internalNamespace")).getD namespaceOption.fallback) := by
  unfold get declaration keyOf
  simp only [namespaceOption, Value.key?_str, bind, Except.bind, pure, Except.pure]
  rw [show s.declared.find? (.text "internalNamespace") = some namespaceOption from h.nameSpace]
  rfl

theorem Configured.exists_nameSpace (h : s.Configured) : ∃ text, s.get namespaceOption.name = .ok (.str text) := by
  cases value : s.values.find? (.text "internalNamespace") with
  | none => exact ⟨"internal", by rw [h.get_nameSpace, value]; rfl⟩
  | some v =>
    obtain ⟨text, rfl⟩ := admits_text (h.typed _ _ _ h.nameSpace value)
    exact ⟨text, by rw [h.get_nameSpace, value]; rfl⟩

theorem Configured.get_linkOnly (h : s.Configured) : s.get linkOnlyOption.name =
    .ok ((s.values.find? (.text "noMissingExports")).getD linkOnlyOption.fallback) := by
  unfold get declaration keyOf
  simp only [linkOnlyOption, Value.key?_str, bind, Except.bind, pure, Except.pure]
  rw [show s.declared.find? (.text "noMissingExports") = some linkOnlyOption from h.linkOnly]
  rfl

end Settings

namespace Workspace

variable {w : Workspace}

theorem policy_of_configured (h : w.settings.Configured) :
    ∃ text linkOnly, w.policy = .ok ⟨.str text, linkOnly⟩ := by
  obtain ⟨text, eq⟩ := h.exists_nameSpace
  refine ⟨text, ((w.settings.values.find? (.text "noMissingExports")).getD linkOnlyOption.fallback).isTruthy, ?_⟩
  unfold policy
  rw [eq, h.get_linkOnly]
  rfl

theorem policy_of_unset (h : w.settings.Configured) (unset : w.settings.values.entries.isEmpty = true) :
    w.policy = .ok ⟨.str "internal", false⟩ := by
  have none : ∀ key, w.settings.values.find? key = none := fun key => by
    unfold OrdMap.find?
    rw [List.isEmpty_iff.1 unset]
    rfl
  unfold policy
  rw [h.get_nameSpace, h.get_linkOnly, none, none]
  rfl

/-- What setting options changes: the settings, and the log. -/
theorem setOptions_same (options : List (String × Value)) (w : Workspace) :
    (w.setOptions options).2 =
      { w with settings := (w.setOptions options).2.settings, log := (w.setOptions options).2.log } := by
  induction options generalizing w with
  | nil => rfl
  | cons option options ih =>
    unfold setOptions setOption
    cases set : w.settings.set (.str option.1) option.2 with
    | error e => rfl
    | ok s => exact ih _

theorem configured_setOptions (options : List (String × Value)) (h : w.settings.Configured) :
    (w.setOptions options).2.settings.Configured := by
  induction options generalizing w with
  | nil => exact h
  | cons option options ih =>
    unfold setOptions setOption
    cases set : w.settings.set (.str option.1) option.2 with
    | error e => exact h
    | ok s => exact ih (h.set set)

/-- The workspace after nothing but the plugin was loaded. -/
def withPlugin : Workspace := empty.loadPlugin.2

theorem configured_withPlugin : withPlugin.settings.Configured := by
  refine ⟨fun key d v _ value => ?_, rfl, rfl⟩
  cases value

end Workspace

end DocTree
