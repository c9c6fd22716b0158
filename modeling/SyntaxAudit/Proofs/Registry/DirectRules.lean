import SyntaxAudit.Proofs.Registry.Actions

/-! Which of the directly added rules stay. The rules of a registry are those that were there when
the configuration came, then those it brought along, then those added since. A configuration finds
the rules of the one before by name. It drops with them what was added under such a name in the
meantime, and nothing else. -/
namespace SyntaxAudit
open Rules

namespace Registry

def addedBy : Registry → List Action → List Rule
  | _, [] => []
  | g, a :: rest => g.added a ++ addedBy (g.step a) rest

/- Those of some new rules that are still there after later actions, where `taken` are the names
that the configuration in force brought along. -/
def outlast (taken : List String) (later : List Action) (rules : List Rule) : List Rule :=
  if later.any Action.configures then rules.filter fun r => !taken.contains r.name else rules

def survivors : Registry → List Action → List Rule
  | _, [] => []
  | g, a :: rest => outlast g.customNames rest (g.added a) ++ survivors (g.step a) rest

def Keeps (g : Registry) (direct : List Rule) : Prop :=
  ∃ before brought after, g.rules.map Rule.bare = before ++ brought ++ after ∧
    names brought = g.customNames ∧ before ++ after = direct.map Rule.bare

structure Layout (g : Registry) (before brought after : List Rule) : Prop where
  rules : g.rules.map Rule.bare = before ++ brought ++ after
  custom : names brought = g.customNames
  apart : ∀ r ∈ before, r.name ∉ g.customNames

theorem outlastAppend (taken : List String) (later : List Action) (xs ys : List Rule) :
    outlast taken later (xs ++ ys) = outlast taken later xs ++ outlast taken later ys := by
  unfold outlast
  split
  · exact List.filter_append ..
  · rfl

theorem outlastBare (taken : List String) (later : List Action) (rules : List Rule) :
    outlast taken later (rules.map Rule.bare) = (outlast taken later rules).map Rule.bare := by
  unfold outlast
  split
  · rw [List.filter_map]
    rfl
  · rfl

theorem outlastDirect {a : Action} (direct : a.configures = false) (taken : List String)
    (later : List Action) (rules : List Rule) :
    outlast taken (a :: later) rules = outlast taken later rules := by
  simp only [outlast, List.any_cons, direct, Bool.false_or]

theorem outlastNil (taken : List String) (later : List Action) : outlast taken later [] = [] := by
  unfold outlast
  split <;> rfl

section Layout
variable {g : Registry} {before brought after : List Rule}

theorem layoutDirect (h : Layout g before brought after) {a : Action}
    (direct : a.configures = false) :
    Layout (g.step a) before brought (after ++ (g.added a).map Rule.bare) where
  rules := by rw [stepView Rule.steadyBare direct, h.rules, List.append_assoc]
  custom := h.custom.trans (stepCustomNames direct).symm
  apart r mem := by rw [stepCustomNames direct]; exact h.apart r mem

theorem layoutReset (h : Layout g before brought after) :
    g.reset.rules.map Rule.bare =
      before ++ after.filter fun r => !g.customNames.contains r.name := by
  have stay : (before.filter fun r => !g.customNames.contains r.name) = before := by
    apply List.filter_eq_self.mpr
    intro r mem
    simpa using h.apart r mem
  have leave : (brought.filter fun r => !g.customNames.contains r.name) = [] := by
    apply List.filter_eq_nil_iff.mpr
    intro r mem
    have own : r.name ∈ g.customNames := h.custom ▸ List.mem_map.mpr ⟨r, mem, rfl⟩
    simpa using own
  rw [resetBare, h.rules, List.filter_append, List.filter_append, stay, leave, List.append_nil]

theorem layoutConfigure (h : Layout g before brought after) (c : RulesConfig) :
    Layout (g.configure c) (before ++ after.filter fun r => !g.customNames.contains r.name)
      ((g.brought c).map Rule.bare) [] where
  rules := by
    rw [configureView Rule.steadyBare, ← layoutReset h, List.append_nil, ← List.map_append]
    rfl
  custom := by
    rw [configureCustomNames, names, List.map_map]
    rfl
  apart r mem := by
    rw [← layoutReset h] at mem
    obtain ⟨s, old, same⟩ := List.mem_map.mp mem
    rw [configureCustomNames, ← same, Rule.nameBare]
    exact broughtApart old

theorem layoutRun (h : Layout g before brought after) (actions : List Action) :
    ∃ before' brought' after', Layout (g.run actions) before' brought' after' ∧
      before' ++ after' = before ++ outlast g.customNames actions after ++
        (survivors g actions).map Rule.bare := by
  induction actions generalizing g before brought after with
  | nil => exact ⟨before, brought, after, h, by simp [outlast, survivors]⟩
  | cons a rest ih =>
    cases kind : a.configures with
    | false =>
      obtain ⟨b, m, f, valid, same⟩ := ih (layoutDirect h kind)
      refine ⟨b, m, f, valid, ?_⟩
      rw [same, stepCustomNames kind, outlastAppend, outlastBare, outlastDirect kind, survivors]
      simp only [List.map_append, List.append_assoc]
    | true =>
      cases a with
      | configure c =>
        obtain ⟨b, m, f, valid, same⟩ := ih (layoutConfigure h c)
        refine ⟨b, m, f, valid, ?_⟩
        rw [same, outlastNil, List.append_nil, survivors, added, outlastNil, List.nil_append]
        simp [outlast, Action.configures, step]
      | _ => contradiction

end Layout

theorem layoutEmpty : Layout empty [] [] [] where
  rules := rfl
  custom := rfl
  apart _ mem := absurd mem List.not_mem_nil

theorem keepsSurvivors (actions : List Action) :
    Keeps (empty.run actions) (survivors empty actions) := by
  obtain ⟨before, brought, after, h, same⟩ := layoutRun layoutEmpty actions
  rw [outlastNil] at same
  exact ⟨before, brought, after, h.rules, h.custom, same⟩

theorem keepsLength {g : Registry} {direct : List Rule} (h : Keeps g direct) :
    g.rules.length = direct.length + g.customNames.length := by
  obtain ⟨before, brought, after, rules, custom, same⟩ := h
  have total := congrArg List.length rules
  have others := congrArg List.length custom
  have own := congrArg List.length same
  simp only [List.length_map, List.length_append, names] at total others own
  omega

def Undisturbed (g : Registry) (actions : List Action) : Prop :=
  ∀ early r late, actions = early ++ .register r :: late →
    late.any Action.configures = true → r.name ∉ (g.run early).customNames

theorem undisturbedTail {g : Registry} {a : Action} {rest : List Action}
    (h : Undisturbed g (a :: rest)) : Undisturbed (g.step a) rest :=
  fun early r late split => h (a :: early) r late (congrArg (a :: ·) split)

theorem addedUntouched {g : Registry} (valid : Consistent g) {a : Action} {rest : List Action}
    (h : Undisturbed g (a :: rest)) : outlast g.customNames rest (g.added a) = g.added a := by
  unfold outlast
  split
  · rename_i later
    apply List.filter_eq_self.mpr
    intro r mem
    cases a with
    | register s =>
      have same : r = s := by simpa [added] using mem
      have free : s.name ∉ g.customNames := h [] s rest rfl later
      simpa [same] using free
    | registerNew rules =>
      have free := mt (valid.custom r.name) (addedFree mem)
      simpa using free
    | _ => simp [added] at mem
  · rfl

theorem survivorsAll {g : Registry} (valid : Consistent g) {actions : List Action}
    (h : Undisturbed g actions) : survivors g actions = addedBy g actions := by
  induction actions generalizing g with
  | nil => rfl
  | cons a rest ih =>
    rw [survivors, addedBy, addedUntouched valid h, ih (consistentStep valid a) (undisturbedTail h)]

theorem outlastLength (taken : List String) (later : List Action) (rules : List Rule) :
    (outlast taken later rules).length ≤ rules.length := by
  unfold outlast
  split
  · exact List.length_filter_le ..
  · exact Nat.le_refl _

theorem survivorsLength (g : Registry) (actions : List Action) :
    (survivors g actions).length ≤ (addedBy g actions).length := by
  induction actions generalizing g with
  | nil => exact Nat.le_refl _
  | cons a rest ih =>
    have first := outlastLength g.customNames rest (g.added a)
    have others := ih (g.step a)
    simp only [survivors, addedBy, List.length_append]
    omega

theorem survivorsFewer {g : Registry} {early late : List Action} {r : Rule}
    (later : late.any Action.configures = true) (taken : r.name ∈ (g.run early).customNames) :
    (survivors g (early ++ .register r :: late)).length <
      (addedBy g (early ++ .register r :: late)).length := by
  induction early generalizing g with
  | nil =>
    have gone : outlast g.customNames late [r] = [] := by
      have here : r.name ∈ g.customNames := taken
      simp [outlast, later, here]
    have others := survivorsLength (g.step (.register r)) late
    simp only [List.nil_append, survivors, addedBy, added, gone, List.length_cons,
      List.length_append, List.length_nil]
    omega
  | cons a rest ih =>
    have first := outlastLength g.customNames (rest ++ .register r :: late) (g.added a)
    have others := ih (g := g.step a) taken
    simp only [List.cons_append, survivors, addedBy, List.length_append]
    omega

theorem directRulesStay (actions : List Action) :
    Keeps (empty.run actions) (survivors empty actions) ∧
    (Keeps (empty.run actions) (addedBy empty actions) ↔ Undisturbed empty actions) := by
  refine ⟨keepsSurvivors actions, fun kept early r late split later taken => ?_, fun h => ?_⟩
  · have present := keepsLength (keepsSurvivors actions)
    have claimed := keepsLength kept
    have fewer := survivorsFewer later taken
    rw [← split] at fewer
    omega
  · rw [← survivorsAll consistentEmpty h]
    exact keepsSurvivors actions

theorem directRuleLost :
    let named : Rule := Rule.declared { name := "x" }
    let actions : List Action :=
      [.configure { custom := [{ name := "x", language := .python }] }, .register named,
        .configure {}]
    addedBy empty actions = [named] ∧ (empty.run actions).rules = [] := by
  intro named actions
  exact ⟨rfl, rfl⟩

end Registry
end SyntaxAudit
