import Mathlib.Data.List.Induction
import SyntaxAudit.Proofs.Registry.Actions

/-! Which directly written settings stay. While a configuration sets a key, the registry remembers
the value from before, and the next configuration returns to that. A direct write or removal made
in between goes with the option that it replaced. -/
namespace SyntaxAudit
open Rules

namespace Action

def outcome (name key : String) (value : Option String) : Action → Option String
  | .set n k v => if n = name ∧ k = key then some v else value
  | .unset n k => if n = name ∧ k = key then none else value
  | _ => value

def touches (name key : String) : Action → Bool
  | .set n k _ => n == name && k == key
  | .unset n k => n == name && k == key
  | _ => false

def covers (name key : String) (covered : Bool) : Action → Bool
  | .configure c => c.sets name key
  | _ => covered

def lastDirect (name key : String) (value : Option String) (actions : List Action) :
    Option String :=
  actions.foldl (outcome name key) value

def uncovered (name key : String) : Bool → List Action → List Action
  | _, [] => []
  | covered, a :: rest =>
      (if covered && a.touches name key then [] else [a]) ++
        uncovered name key (a.covers name key covered) rest

def Overruled (name key : String) (covered : Bool) (value : Option String)
    (actions : List Action) : Prop :=
  ∃ early a late, actions = early ++ a :: late ∧ a.touches name key = true ∧
    (∀ b ∈ late, b.touches name key = false) ∧ early.foldl (covers name key) covered = true ∧
    a.outcome name key none ≠ lastDirect name key value (uncovered name key covered early)

section Outcome
variable {name key : String} {a : Action}

theorem outcomeOther (other : a.touches name key = false) (value : Option String) :
    a.outcome name key value = value := by
  cases a with
  | set n k v =>
    simp only [touches, Bool.and_eq_false_iff, beq_eq_false_iff_ne] at other
    exact if_neg fun same => other.elim (· same.1) (· same.2)
  | unset n k =>
    simp only [touches, Bool.and_eq_false_iff, beq_eq_false_iff_ne] at other
    exact if_neg fun same => other.elim (· same.1) (· same.2)
  | _ => rfl

theorem outcomeOwn (own : a.touches name key = true) (value value' : Option String) :
    a.outcome name key value = a.outcome name key value' := by
  cases a with
  | set n k v =>
    have same : n = name ∧ k = key := by simpa [touches] using own
    simp only [outcome, if_pos same]
  | unset n k =>
    have same : n = name ∧ k = key := by simpa [touches] using own
    simp only [outcome, if_pos same]
  | _ => simp [touches] at own

theorem coversDirect (direct : a.configures = false) (covered : Bool) :
    a.covers name key covered = covered := by
  cases a with
  | configure c => contradiction
  | _ => rfl

theorem uncoveredAppend (covered : Bool) (xs ys : List Action) :
    uncovered name key covered (xs ++ ys) =
      uncovered name key covered xs ++
        uncovered name key (xs.foldl (covers name key) covered) ys := by
  induction xs generalizing covered with
  | nil => rfl
  | cons a rest ih =>
    rw [List.cons_append, uncovered, uncovered, ih, List.append_assoc]
    rfl

theorem splitLast {early late rest : List Action} {b : Action}
    (split : rest ++ [a] = early ++ b :: late) :
    (early = rest ∧ b = a ∧ late = []) ∨
      ∃ late', late = late' ++ [a] ∧ rest = early ++ b :: late' := by
  rcases List.eq_nil_or_concat late with rfl | ⟨late', d, rfl⟩
  · obtain ⟨init, last⟩ := List.append_inj' split rfl
    cases last
    exact .inl ⟨init.symm, rfl, rfl⟩
  · rw [List.concat_eq_append, ← List.cons_append, ← List.append_assoc] at split
    obtain ⟨init, last⟩ := List.append_inj' split rfl
    cases last
    exact .inr ⟨late', List.concat_eq_append, init⟩

theorem overruledOther {covered : Bool} {value : Option String} {rest : List Action}
    (other : a.touches name key = false) :
    Overruled name key covered value (rest ++ [a]) ↔ Overruled name key covered value rest := by
  constructor
  · rintro ⟨early, b, late, split, own, quiet, inForce, differs⟩
    rcases splitLast split with ⟨_, rfl, _⟩ | ⟨late', rfl, init⟩
    · rw [other] at own
      contradiction
    · exact ⟨early, b, late', init, own, fun e mem => quiet e (by simp [mem]), inForce, differs⟩
  · rintro ⟨early, b, late, split, own, quiet, inForce, differs⟩
    refine ⟨early, b, late ++ [a], by simp [split], own, ?_, inForce, differs⟩
    intro e mem
    rcases List.mem_append.mp mem with old | last
    · exact quiet e old
    · rw [List.mem_singleton.mp last]
      exact other

theorem overruledOwn {covered : Bool} {value : Option String} {rest : List Action}
    (own : a.touches name key = true) :
    Overruled name key covered value (rest ++ [a]) ↔
      rest.foldl (covers name key) covered = true ∧
        a.outcome name key none ≠ lastDirect name key value (uncovered name key covered rest) := by
  constructor
  · rintro ⟨early, b, late, split, _, quiet, inForce, differs⟩
    rcases splitLast split with ⟨rfl, rfl, _⟩ | ⟨late', rfl, _⟩
    · exact ⟨inForce, differs⟩
    · have silent := quiet a (by simp)
      rw [own] at silent
      contradiction
  · rintro ⟨inForce, differs⟩
    exact ⟨rest, a, [], rfl, own, fun _ mem => absurd mem List.not_mem_nil, inForce, differs⟩

/- The induction is on the run from its end, where the last write is. -/
theorem lastDirectUncovered (covered : Bool) (value : Option String) (actions : List Action) :
    lastDirect name key value (uncovered name key covered actions) =
      lastDirect name key value actions ↔ ¬ Overruled name key covered value actions := by
  induction actions using List.reverseRecOn with
  | nil =>
    refine iff_of_true rfl ?_
    rintro ⟨early, a, late, split, _⟩
    simp at split
  | append_singleton rest a ih =>
    have tail : lastDirect name key value (rest ++ [a]) =
        a.outcome name key (lastDirect name key value rest) := by
      simp [lastDirect]
    rw [uncoveredAppend, tail]
    cases kind : a.touches name key with
    | false =>
      rw [overruledOther kind, ← ih, outcomeOther kind]
      simp [uncovered, kind, lastDirect, outcomeOther]
    | true =>
      rw [overruledOwn kind, outcomeOwn kind _ none]
      cases inForce : rest.foldl (covers name key) covered with
      | true => simp [uncovered, kind, eq_comm]
      | false =>
        refine iff_of_true ?_ (by simp)
        simp only [uncovered, Bool.false_and, lastDirect, List.foldl_append]
        exact outcomeOwn kind _ none

end Outcome
end Action

namespace Registry

theorem valueInStep {g : Registry} {a : Action} {name : String} (present : name ∈ names g.rules)
    (direct : a.configures = false) (key : String) :
    valueIn (g.step a).rules name key = a.outcome name key (valueIn g.rules name key) := by
  cases a with
  | register r => simp only [step, register, valueIn, namedAppend present, Action.outcome]
  | registerNew rules =>
    simp only [step, registerNew, addNewRules, valueIn, namedAppend present, Action.outcome]
  | configure c => contradiction
  | set n k v => exact valueInPutBack present ⟨n, k, some v⟩
  | unset n k => exact valueInPutBack present ⟨n, k, none⟩

/- The rule is the first of its name and not of the configuration. `value` is what the key holds
once the configuration in force is taken back, and `covered` says whether that sets the key. -/
structure Follows (g : Registry) (r : Rule) (key : String) (value : Option String)
    (covered : Bool) : Prop where
  holder : named r.name (g.rules.map Rule.bare) = some r.bare
  plain : r.name ∉ g.customNames
  logged : g.logs r.name key = covered
  held : valueIn g.reset.rules r.name key = value

section Follows
variable {g : Registry} {r : Rule} {key : String} {value : Option String} {covered : Bool}

theorem Follows.present (h : Follows g r key value covered) : r.name ∈ names g.rules := by
  have there := presentOfNamed h.holder
  rwa [names, List.map_map] at there

theorem followsDirect (h : Follows g r key value covered) {a : Action}
    (direct : a.configures = false) :
    Follows (g.step a) r key (if covered then value else a.outcome r.name key value) covered := by
  have present := h.present
  have plain : r.name ∉ (g.step a).customNames := by
    rw [stepCustomNames direct]
    exact h.plain
  refine ⟨?_, plain, ?_, ?_⟩
  · rw [stepView Rule.steadyBare direct, namedAppend (presentOfNamed h.holder), h.holder]
  · rw [logs, stepOverwritten direct]
    exact h.logged
  · have before := h.held
    rw [valueInReset present h.plain key] at before
    rw [valueInReset (stepNames direct present) plain key, stepOverwritten direct,
      valueInStep present direct]
    cases covered with
    | true =>
      obtain ⟨o, found⟩ := findLogged h.logged
      rw [found] at before ⊢
      exact before
    | false =>
      rw [findUnlogged h.logged] at before ⊢
      exact congrArg (a.outcome r.name key) before

theorem followsConfigure (h : Follows g r key value covered) (c : RulesConfig) :
    Follows (g.configure c) r key value (c.sets r.name key) := by
  have kept : named r.name (g.reset.rules.map Rule.bare) = some r.bare := by
    rw [resetBare, namedFilter (fun n => !g.customNames.contains n) (by simpa using h.plain)]
    exact h.holder
  have present : r.name ∈ names g.reset.rules := by
    have there := presentOfNamed kept
    rwa [names, List.map_map] at there
  refine ⟨?_, plainConfigure present, logsConfigure present, ?_⟩
  · rw [configureView Rule.steadyBare, joined, List.map_append, namedAppend (presentOfNamed kept)]
    exact kept
  · rw [resetConfigure]
    exact h.held

theorem followsStep (h : Follows g r key value covered) (a : Action) :
    Follows (g.step a) r key
      (if covered && a.touches r.name key then value else a.outcome r.name key value)
      (a.covers r.name key covered) := by
  cases kind : a.configures with
  | true =>
    cases a with
    | configure c => cases covered <;> exact followsConfigure h c
    | _ => contradiction
  | false =>
    have next := followsDirect h kind
    rw [Action.coversDirect kind]
    cases own : a.touches r.name key with
    | true => rwa [Bool.and_true]
    | false =>
      rw [Action.outcomeOther own] at next ⊢
      rw [ite_self] at next ⊢
      exact next

theorem followsRun (h : Follows g r key value covered) (actions : List Action) :
    Follows (g.run actions) r key
      (Action.lastDirect r.name key value (Action.uncovered r.name key covered actions))
      (actions.foldl (Action.covers r.name key) covered) := by
  induction actions generalizing g value covered with
  | nil => exact h
  | cons a rest ih =>
    have next := ih (followsStep h a)
    rw [Action.uncovered, Action.lastDirect, List.foldl_append]
    cases skipped : covered && a.touches r.name key <;> rw [skipped] at next <;> exact next

end Follows

theorem followsAdded {g : Registry} (valid : Consistent g) {a : Action} {r : Rule}
    (new : r ∈ g.added a) (lone : r.name ∉ names g.rules) (key : String) :
    Follows (g.step a) r key (r.settings.get? key) false := by
  have direct : a.configures = false := by
    cases a with
    | configure c => simp [added] at new
    | _ => rfl
  have rules : (g.step a).rules = g.rules ++ g.added a := by
    cases a with
    | register s => rfl
    | registerNew more => rw [addedNew, ← addNewRules]; rfl
    | _ => simp [added] at new
  have first : named r.name (g.step a).rules = some r := by
    rw [rules, namedAppendAbsent lone]
    cases a with
    | register s =>
      rw [List.mem_singleton.mp new]
      simp [added, namedCons]
    | registerNew more =>
      rw [addedNew] at new ⊢
      exact namedUntaken new
    | _ => simp [added] at new
  have plain : r.name ∉ (g.step a).customNames := by
    rw [stepCustomNames direct]
    exact mt (valid.custom r.name) lone
  have silent : (g.step a).logs r.name key = false := by
    rw [logs, stepOverwritten direct]
    apply List.any_eq_false.mpr
    intro o mem
    have other : o.rule ≠ r.name := fun same => lone (same ▸ valid.logged o mem)
    simp [other]
  refine ⟨?_, plain, silent, ?_⟩
  · rw [namedBare, first]
    rfl
  · rw [valueInReset (presentOfNamed first) plain key, findUnlogged silent]
    simp [valueIn, first]

theorem runAppend (g : Registry) (xs ys : List Action) : g.run (xs ++ ys) = (g.run xs).run ys :=
  List.foldl_append

theorem directSettingStays (early : List Action) (a : Action) (late : List Action) (r : Rule)
    (key : String) (c : RulesConfig) (new : r ∈ (empty.run early).added a)
    (lone : r.name ∉ names (empty.run early).rules) (unset : c.sets r.name key = false) :
    ∃ s, (empty.run (early ++ a :: late ++ [.configure c])).get? r.name = some s ∧
      s.bare = r.bare ∧
      s.settings.get? key = Action.lastDirect r.name key (r.settings.get? key)
        (Action.uncovered r.name key false late) ∧
      (s.settings.get? key = Action.lastDirect r.name key (r.settings.get? key) late ↔
        ¬ Action.Overruled r.name key false (r.settings.get? key) late) := by
  have start := followsAdded (consistentRun consistentEmpty early) new lone key
  have before := followsRun start late
  have final := followsConfigure before c
  rw [unset] at final
  have state : empty.run (early ++ a :: late ++ [.configure c]) =
      ((((empty.run early).step a).run late)).configure c := by
    rw [List.append_assoc, runAppend, List.cons_append]
    exact runAppend _ late [.configure c]
  rw [state]
  generalize (((empty.run early).step a).run late).configure c = g at final
  have holder := final.holder
  rw [namedBare] at holder
  obtain ⟨s, found, same⟩ := Option.map_eq_some_iff.mp holder
  have value : s.settings.get? key = Action.lastDirect r.name key (r.settings.get? key)
      (Action.uncovered r.name key false late) := by
    have held := final.held
    rw [valueInReset final.present final.plain key, findUnlogged final.logged] at held
    simpa [valueIn, found] using held
  exact ⟨s, found, same, value, value ▸ Action.lastDirectUncovered false _ late⟩

theorem directLimitStays :
    let limit : Rule := Rule.declared { name := "a" }
    let c : RulesConfig := { options := [("a", [("max", .string "3")])] }
    ∃ s, (empty.run [.register limit, .set "a" "max" "9", .configure c, .configure {}]).get? "a" =
        some s ∧ s.settings.get? "max" = some "9" := by
  intro limit c
  obtain ⟨s, found, _, value, _⟩ := directSettingStays [] (.register limit)
    [.set "a" "max" "9", .configure c] limit "max" {} (by simp [added])
    (by simp [run, empty, names]) rfl
  exact ⟨s, found, value.trans (by decide)⟩

theorem directLimitLost :
    let limit : Rule := Rule.declared { name := "a" }
    let c : RulesConfig := { options := [("a", [("max", .string "3")])] }
    let actions : List Action := [.configure c, .set "a" "max" "9"]
    Action.lastDirect "a" "max" none actions = some "9" ∧
    valueIn (empty.run (.register limit :: actions ++ [.configure {}])).rules "a" "max" = none := by
  intro limit c actions
  exact ⟨by decide, by decide⟩

end Registry
end SyntaxAudit
