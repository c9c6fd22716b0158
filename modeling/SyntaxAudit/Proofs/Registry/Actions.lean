import SyntaxAudit.Proofs.Registry.Rollback

/-! Runs of a registry: rules are added, configurations applied, settings written and removed, in
any order. Only a configuration takes rules away; every other action leaves the rules that are
there in place and what it adds stands after them. -/
namespace SyntaxAudit
open Rules

inductive Action where
  | register (r : Rule)
  | registerNew (rules : List Rule)
  | configure (c : RulesConfig)
  | set (name key value : String)
  | unset (name key : String)

def Action.configures : Action → Bool
  | .configure _ => true
  | _ => false

namespace Registry

def step (g : Registry) : Action → Registry
  | .register r => g.register r
  | .registerNew rules => (g.registerNew rules).1
  | .configure c => g.configure c
  | .set name key value => g.update name fun r => r.set key value
  | .unset name key => g.update name fun r => r.unset key

def run (g : Registry) (actions : List Action) : Registry := actions.foldl step g

def added (g : Registry) : Action → List Rule
  | .register r => [r]
  | .registerNew rules => (g.registerNew rules).1.rules.drop g.rules.length
  | .configure _ => []
  | .set .. => []
  | .unset .. => []

theorem addedNew (g : Registry) (rules : List Rule) :
    g.added (.registerNew rules) = untaken (names g.rules) rules := by
  simp only [added, registerNew, addNewRules, List.drop_left]

section Step
variable {g : Registry} {a : Action}

theorem stepView {β : Type} {view : Rule → β} (steady : Rule.Steady view)
    (direct : a.configures = false) :
    (g.step a).rules.map view = g.rules.map view ++ (g.added a).map view := by
  cases a with
  | register r => simp [step, register, added]
  | registerNew rules =>
    rw [addedNew, ← List.map_append, ← addNewRules]
    rfl
  | configure c => contradiction
  | set name key value =>
    have same := updateFirstView (fun r => steady r key (some value)) name g.rules
    exact same.trans (List.append_nil _).symm
  | unset name key =>
    have same := updateFirstView (fun r => steady r key none) name g.rules
    exact same.trans (List.append_nil _).symm

theorem stepCustomNames (direct : a.configures = false) :
    (g.step a).customNames = g.customNames := by
  cases a with
  | configure c => contradiction
  | _ => rfl

theorem stepOverwritten (direct : a.configures = false) :
    (g.step a).overwritten = g.overwritten := by
  cases a with
  | configure c => contradiction
  | _ => rfl

theorem stepNames (direct : a.configures = false) {name : String} (present : name ∈ names g.rules) :
    name ∈ names (g.step a).rules := by
  rw [names, stepView Rule.steadyName direct]
  exact List.mem_append_left _ present

end Step

structure Consistent (g : Registry) : Prop where
  custom : ∀ name ∈ g.customNames, name ∈ names g.rules
  logged : ∀ o ∈ g.overwritten, o.rule ∈ names g.rules

theorem consistentEmpty : Consistent empty := by
  constructor
  · intro name mem
    simp [empty] at mem
  · intro o mem
    simp [empty] at mem

theorem consistentWrite {g : Registry} (valid : Consistent g)
    (w : String × String × OptionValue) : Consistent (g.write w) := by
  have same : names (g.write w).rules = names g.rules := writeView Rule.steadyName g w
  refine ⟨fun name mem => ?_, fun o mem => ?_⟩
  · rw [writeCustomNames] at mem
    exact same ▸ valid.custom name mem
  · rw [same]
    obtain ⟨_, equal⟩ | ⟨r, found, equal⟩ := writeCases g w
    · exact valid.logged o (equal ▸ mem)
    · rw [equal] at mem
      rcases List.mem_append.mp mem with old | last
      · exact valid.logged o old
      · rw [List.mem_singleton.mp last]
        exact presentOfNamed found

theorem consistentConfigure (g : Registry) (c : RulesConfig) : Consistent (g.configure c) := by
  have start : Consistent (g.joined c) := by
    refine ⟨fun name mem => ?_, fun o mem => absurd mem List.not_mem_nil⟩
    obtain ⟨r, inside, same⟩ := List.mem_map.mp mem
    exact List.mem_map.mpr ⟨r, List.mem_append_right _ inside, same⟩
  rw [configureEq]
  generalize g.joined c = h at start
  induction c.writes generalizing h with
  | nil => exact start
  | cons w rest ih => exact ih (h.write w) (consistentWrite start w)

theorem consistentStep {g : Registry} (valid : Consistent g) (a : Action) :
    Consistent (g.step a) := by
  cases kind : a.configures with
  | true =>
    cases a with
    | configure c => exact consistentConfigure g c
    | _ => contradiction
  | false =>
    refine ⟨fun name mem => ?_, fun o mem => ?_⟩
    · rw [stepCustomNames kind] at mem
      exact stepNames kind (valid.custom name mem)
    · rw [stepOverwritten kind] at mem
      exact stepNames kind (valid.logged o mem)

theorem consistentRun {g : Registry} (valid : Consistent g) (actions : List Action) :
    Consistent (g.run actions) := by
  induction actions generalizing g with
  | nil => exact valid
  | cons a rest ih => exact ih (consistentStep valid a)

theorem addedFree {g : Registry} {rules : List Rule} {r : Rule}
    (mem : r ∈ g.added (.registerNew rules)) : r.name ∉ names g.rules := by
  rw [addedNew] at mem
  exact (untakenFresh mem).1

end Registry
end SyntaxAudit
