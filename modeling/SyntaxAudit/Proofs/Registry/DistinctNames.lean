import SyntaxAudit.Proofs.Registry.Actions
import SyntaxAudit.Proofs.Registry.Effect

/-! Names as keys. Rules that come in bulk or with a configuration leave out every name that is
taken, also by a rule of the same bulk, and taking a configuration back only removes rules. So as long
as no rule is added unchecked, no two rules have one name and a name finds its rule. -/
namespace SyntaxAudit
open Rules

def Action.checked : Action → Bool
  | .registerNew _ => true
  | .configure _ => true
  | _ => false

namespace Rules

theorem appendDistinct {rules : List Rule} (distinct : (names rules).Nodup) (more : List Rule) :
    (names (rules ++ untaken (names rules) more)).Nodup := by
  rw [names, List.map_append]
  refine List.nodup_append.mpr ⟨distinct, untakenDistinct _ more, fun old before new after => ?_⟩
  obtain ⟨r, mem, same⟩ := List.mem_map.mp after
  intro equal
  exact (untakenFresh mem).1 (same ▸ equal ▸ before)

end Rules

namespace Registry

theorem distinctReset {g : Registry} (distinct : (names g.rules).Nodup) :
    (names g.reset.rules).Nodup := by
  have kept : (names (unwind g.overwritten g.rules)).Nodup := by
    rw [names, unwindView Rule.steadyName]
    exact distinct
  rw [resetEq]
  exact List.Nodup.sublist (List.Sublist.map Rule.name List.filter_sublist) kept

theorem distinctStep {g : Registry} {a : Action} (checked : a.checked = true)
    (distinct : (names g.rules).Nodup) : (names (g.step a).rules).Nodup := by
  cases a with
  | registerNew rules =>
    change (names (addNew g.rules rules).1).Nodup
    rw [addNewRules]
    exact appendDistinct distinct rules
  | configure c =>
    have kept : names (g.configure c).rules = names (g.joined c).rules :=
      configureView Rule.steadyName g c
    change (names (g.configure c).rules).Nodup
    rw [kept]
    exact appendDistinct (distinctReset distinct) _
  | register r => contradiction
  | set name key value => contradiction
  | unset name key => contradiction

theorem distinctRun {g : Registry} {actions : List Action}
    (checked : ∀ a ∈ actions, a.checked = true) (distinct : (names g.rules).Nodup) :
    (names (g.run actions).rules).Nodup := by
  induction actions generalizing g with
  | nil => exact distinct
  | cons a rest ih =>
    have first := distinctStep (checked a List.mem_cons_self) distinct
    exact ih (fun b mem => checked b (List.mem_cons_of_mem a mem)) first

theorem distinctEmpty : (names empty.rules).Nodup := List.nodup_nil

theorem distinctBuiltin : (names builtin.rules).Nodup :=
  distinctStep (a := .registerNew Builtin.rules) rfl distinctEmpty

theorem enabledByName (g : Registry) (name : String) :
    g.isEnabled name = true ↔ ∃ r ∈ g.enabledRules, r.name = name := by
  have same : g.get? name = named name g.rules := rfl
  unfold isEnabled
  rw [same]
  constructor
  · intro enabled
    obtain ⟨r, found, allowed⟩ := (Option.any_eq_true _ _).mp enabled
    have own : r.name = name := by simpa using List.find?_some found
    exact ⟨r, List.mem_filter.mpr ⟨List.mem_of_find?_eq_some found, allowed⟩, own⟩
  · intro runs
    obtain ⟨r, mem, own⟩ := runs
    obtain ⟨inside, allowed⟩ := List.mem_filter.mp mem
    obtain ⟨s, found⟩ := namedOfPresent (List.mem_map.mpr ⟨r, inside, own⟩)
    have first : s.name = name := by simpa using List.find?_some found
    rw [found, Option.any_some, first, ← own]
    exact allowed

theorem registerNewEffect (g : Registry) (rules : List Rule) :
    g.registerNew rules =
      ({ g with rules := g.rules ++ firstFree (names g.rules) rules },
        (firstFree (names g.rules) rules).length) := by
  simp only [registerNew, addNewEq, untakenFirst]

theorem namesStayDistinct {g : Registry} (start : g = empty ∨ g = builtin) {actions : List Action}
    (checked : ∀ a ∈ actions, a.checked = true) :
    (names (g.run actions).rules).Nodup ∧
    (∀ r ∈ (g.run actions).rules, (g.run actions).get? r.name = some r) ∧
    (∀ name, (g.run actions).isEnabled name = true ↔
      ∃ r ∈ (g.run actions).enabledRules, r.name = name) ∧
    ∀ (h : Registry) (bulk : List Rule), h.registerNew bulk =
      ({ h with rules := h.rules ++ firstFree (names h.rules) bulk },
        (firstFree (names h.rules) bulk).length) := by
  have first : (names g.rules).Nodup := by
    rcases start with rfl | rfl
    · exact distinctEmpty
    · exact distinctBuiltin
  have distinct := distinctRun checked first
  exact ⟨distinct, fun r mem => namedDistinct distinct mem, enabledByName _, registerNewEffect⟩

theorem namesStayDistinctReused :
    let rule (name message : String) : Rule := Rule.declared { name, message }
    let custom (name : String) : CustomRule := { name, language := .rust }
    let actions : List Action :=
      [.registerNew [rule "a" "first", rule "no-print" "", rule "a" "second"],
        .configure { disabled := ["b"], custom := [custom "x", custom "a", custom "x"] },
        .registerNew [rule "x" "", rule "b" ""],
        .configure { disabled := ["a"], custom := [custom "b", custom "c"] }]
    (∀ a ∈ actions, a.checked = true) ∧
    (names (builtin.run actions).rules).Nodup ∧
    (names (builtin.run actions).rules).drop builtin.size = ["a", "b", "c"] ∧
    ((builtin.run actions).get? "a").map (fun r => r.metadata.message) = some "first" ∧
    (¬ ∃ r ∈ (builtin.run actions).enabledRules, r.name = "a") ∧
    (builtin.registerNew [rule "a" "first", rule "no-print" "", rule "a" "second"]).2 = 1 := by
  intro rule custom actions
  have checked : ∀ a ∈ actions, a.checked = true := by simp [actions, Action.checked]
  obtain ⟨distinct, _, enabled, added⟩ := namesStayDistinct (.inr rfl) checked
  refine ⟨checked, distinct, by decide +kernel, by decide +kernel, ?_, ?_⟩
  · rw [← enabled]
    decide +kernel
  · rw [added]
    decide +kernel

end Registry
end SyntaxAudit
