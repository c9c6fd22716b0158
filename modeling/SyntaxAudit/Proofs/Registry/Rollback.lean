import SyntaxAudit.Proofs.Registry.Rules

/-! Taking a configuration back. Writing an option and then putting the remembered value back gives
the rules as they were, so the log read from its end undoes all writes; the rules that came along
have names of their own and go without taking another rule with them. What a registry is after a
configuration therefore does not depend on the configurations before. -/
namespace SyntaxAudit
open Rules

def RulesConfig.writes (c : RulesConfig) : List (String × String × OptionValue) :=
  c.options.flatMap fun o => o.2.map fun option => (o.1, option)

def RulesConfig.sets (c : RulesConfig) (name key : String) : Bool :=
  c.writes.any fun w => w.1 == name && w.2.1 == key

namespace Registry

def putBack (o : Overwritten) (rules : List Rule) : List Rule :=
  updateFirst o.rule (fun r => r.put o.key o.previous) rules

def unwind (log : List Overwritten) (rules : List Rule) : List Rule := log.foldr putBack rules

def write (g : Registry) (w : String × String × OptionValue) : Registry := overwrite w.1 g w.2

theorem restoreRules (log : List Overwritten) (g : Registry) :
    (log.foldr (fun o h => restore h o) g).rules = unwind log g.rules := by
  induction log with
  | nil => rfl
  | cons o rest ih =>
    change putBack o (rest.foldr (fun o h => restore h o) g).rules = putBack o (unwind rest g.rules)
    rw [ih]

theorem resetEq (g : Registry) :
    g.reset =
      { rules :=
          (unwind g.overwritten g.rules).filter fun r => !g.customNames.contains r.name } := by
  simp only [reset, List.foldl_reverse, restoreRules]

theorem unwindSnoc (log : List Overwritten) (o : Overwritten) (rules : List Rule) :
    unwind (log ++ [o]) rules = unwind log (putBack o rules) := by
  simp [unwind]

theorem unwindView {β : Type} {view : Rule → β} (steady : Rule.Steady view)
    (log : List Overwritten) (rules : List Rule) :
    (unwind log rules).map view = rules.map view := by
  induction log with
  | nil => rfl
  | cons o rest ih =>
    change (putBack o (unwind rest rules)).map view = _
    rw [putBack, updateFirstView (fun r => steady r o.key o.previous), ih]

theorem writeCases (g : Registry) (w : String × String × OptionValue) :
    (named w.1 g.rules = none ∧ g.write w = g) ∨
    ∃ r, named w.1 g.rules = some r ∧
      g.write w =
        { g with
          rules := updateFirst w.1 (fun r => r.put w.2.1 (some w.2.2.text)) g.rules
          overwritten := g.overwritten ++ [⟨w.1, w.2.1, r.settings.get? w.2.1⟩] } := by
  have same : g.get? w.1 = named w.1 g.rules := rfl
  cases found : named w.1 g.rules with
  | none => exact .inl ⟨rfl, by simp only [write, overwrite, same, found]⟩
  | some r => exact .inr ⟨r, rfl, by simp only [write, overwrite, same, found, update, Rule.put]⟩

theorem unwindWrite (g : Registry) (w : String × String × OptionValue) :
    unwind (g.write w).overwritten (g.write w).rules = unwind g.overwritten g.rules := by
  obtain ⟨_, same⟩ | ⟨r, found, same⟩ := writeCases g w
  · rw [same]
  · have back : putBack ⟨w.1, w.2.1, r.settings.get? w.2.1⟩
        (updateFirst w.1 (fun r => r.put w.2.1 (some w.2.2.text)) g.rules) = g.rules := by
      rw [putBack, updateFirstTwice (fun r => Rule.steadyName r _ _)]
      apply updateFirstFixed
      intro s first
      have equal : s = r := Option.some.inj (first.symm.trans found)
      rw [equal, Rule.putBackPut]
    rw [same]
    simp only [unwindSnoc, back]

theorem writeView {β : Type} {view : Rule → β} (steady : Rule.Steady view) (g : Registry)
    (w : String × String × OptionValue) : (g.write w).rules.map view = g.rules.map view := by
  obtain ⟨_, same⟩ | ⟨r, _, same⟩ := writeCases g w <;> rw [same]
  exact updateFirstView (fun r => steady r _ _) w.1 g.rules

theorem writeCustomNames (g : Registry) (w : String × String × OptionValue) :
    (g.write w).customNames = g.customNames := by
  obtain ⟨_, same⟩ | ⟨r, _, same⟩ := writeCases g w <;> rw [same]

theorem writesView {β : Type} (view : Registry → β) (same : ∀ g w, view (write g w) = view g)
    (ws : List (String × String × OptionValue)) (g : Registry) :
    view (ws.foldl write g) = view g := by
  induction ws generalizing g with
  | nil => rfl
  | cons w rest ih => exact (ih (g.write w)).trans (same g w)

theorem applyWrites (g : Registry) (options : List (String × List (String × OptionValue))) :
    options.foldl applyOptions g =
      (options.flatMap fun o => o.2.map fun option => (o.1, option)).foldl write g := by
  induction options generalizing g with
  | nil => rfl
  | cons o rest ih =>
    rw [List.foldl_cons, ih, List.flatMap_cons, List.foldl_append, List.foldl_map]
    rfl

def brought (g : Registry) (c : RulesConfig) : List Rule :=
  untaken (names g.reset.rules) (c.custom.map Rule.ofCustom)

def joined (g : Registry) (c : RulesConfig) : Registry where
  rules := g.reset.rules ++ g.brought c
  enabled := c.enabled
  disabled := c.disabled
  overrides := c.priority
  customNames := names (g.brought c)

theorem configureEq (g : Registry) (c : RulesConfig) :
    g.configure c = c.writes.foldl write (g.joined c) := by
  simp only [configure, applyWrites, addNewRules, List.drop_left]
  rfl

theorem configureView {β : Type} {view : Rule → β} (steady : Rule.Steady view) (g : Registry)
    (c : RulesConfig) : (g.configure c).rules.map view = (g.joined c).rules.map view := by
  rw [configureEq]
  exact writesView (fun h => h.rules.map view) (writeView steady) c.writes (g.joined c)

theorem configureCustomNames (g : Registry) (c : RulesConfig) :
    (g.configure c).customNames = names (g.brought c) := by
  rw [configureEq]
  exact writesView Registry.customNames writeCustomNames c.writes (g.joined c)

theorem unwindConfigure (g : Registry) (c : RulesConfig) :
    unwind (g.configure c).overwritten (g.configure c).rules = g.reset.rules ++ g.brought c := by
  rw [configureEq]
  exact writesView (fun h => unwind h.overwritten h.rules) unwindWrite c.writes (g.joined c)

theorem broughtApart {g : Registry} {c : RulesConfig} {r : Rule} (old : r ∈ g.reset.rules) :
    r.name ∉ names (g.brought c) := by
  intro taken
  obtain ⟨s, mem, same⟩ := List.mem_map.mp taken
  exact (untakenFresh mem).1 (same ▸ List.mem_map.mpr ⟨r, old, rfl⟩)

theorem resetConfigure (g : Registry) (c : RulesConfig) : (g.configure c).reset = g.reset := by
  rw [resetEq (g.configure c), unwindConfigure, configureCustomNames, List.filter_append]
  have stay : (g.reset.rules.filter fun r => !(names (g.brought c)).contains r.name) =
      g.reset.rules := by
    apply List.filter_eq_self.mpr
    intro r old
    simpa using broughtApart old
  have leave : ((g.brought c).filter fun r => !(names (g.brought c)).contains r.name) = [] := by
    apply List.filter_eq_nil_iff.mpr
    intro r mem
    have own : r.name ∈ names (g.brought c) := List.mem_map.mpr ⟨r, mem, rfl⟩
    simpa using own
  rw [stay, leave, List.append_nil, resetEq g]

theorem resetBare (g : Registry) :
    g.reset.rules.map Rule.bare =
      (g.rules.map Rule.bare).filter fun r => !g.customNames.contains r.name := by
  rw [resetEq, ← unwindView Rule.steadyBare g.overwritten g.rules, List.filter_map]
  rfl

theorem configureOfReset {g h : Registry} (same : g.reset = h.reset) (c : RulesConfig) :
    g.configure c = h.configure c := by
  simp only [configure, same]

theorem resetConfigureAll (g : Registry) (cs : List RulesConfig) :
    (cs.foldl configure g).reset = g.reset := by
  induction cs generalizing g with
  | nil => rfl
  | cons c rest ih => exact (ih (g.configure c)).trans (resetConfigure g c)

def logs (g : Registry) (name key : String) : Bool :=
  g.overwritten.any fun o => o.rule == name && o.key == key

section Setting
variable {g : Registry} {c : RulesConfig} {name key : String}

theorem valueInPutBack {rules : List Rule} (present : name ∈ names rules) (o : Overwritten) :
    valueIn (putBack o rules) name key =
      if o.rule = name ∧ o.key = key then o.previous else valueIn rules name key := by
  split
  · rename_i own
    obtain ⟨r, found⟩ := namedOfPresent present
    simp only [valueIn, putBack, namedUpdateFirst (fun r => Rule.steadyName r _ _), own.1, found]
    simp [Rule.getPut, own.2]
  · rename_i other
    refine valueInUpdate (fun r => Rule.steadyName r _ _) (fun asked r => ?_) rules
    rw [Rule.getPut, if_neg fun same => other ⟨asked.symm, same.symm⟩]

/- The entry that was logged first is put back last, so its value is the one that stays. -/
theorem valueInUnwind {rules : List Rule} (present : name ∈ names rules) (log : List Overwritten) :
    valueIn (unwind log rules) name key =
      ((log.find? fun o => o.rule == name && o.key == key).map Overwritten.previous).getD
        (valueIn rules name key) := by
  induction log with
  | nil => rfl
  | cons o rest ih =>
    have there : name ∈ names (unwind rest rules) := by
      rw [names, unwindView Rule.steadyName]
      exact present
    change valueIn (putBack o (unwind rest rules)) name key = _
    rw [valueInPutBack there, ih, List.find?_cons]
    by_cases own : o.rule = name ∧ o.key = key
    · simp [own]
    · have test : (o.rule == name && o.key == key) = false := by simpa using own
      simp only [if_neg own, test]

theorem valueInReset (present : name ∈ names g.rules) (plain : name ∉ g.customNames)
    (key : String) :
    valueIn g.reset.rules name key =
      ((g.overwritten.find? fun o => o.rule == name && o.key == key).map
        Overwritten.previous).getD (valueIn g.rules name key) := by
  rw [resetEq, ← valueInUnwind present]
  simp only [valueIn]
  rw [namedFilter (fun n => !g.customNames.contains n) (by simpa using plain)]

theorem findLogged (logged : g.logs name key = true) :
    ∃ o, (g.overwritten.find? fun o => o.rule == name && o.key == key) = some o :=
  Option.isSome_iff_exists.mp (List.find?_isSome.mpr (List.any_eq_true.mp logged))

theorem findUnlogged (silent : g.logs name key = false) :
    (g.overwritten.find? fun o => o.rule == name && o.key == key) = none := by
  apply List.find?_eq_none.mpr
  intro o mem
  simpa using List.any_eq_false.mp silent o mem

theorem logsWrite (present : name ∈ names g.rules) (w : String × String × OptionValue) :
    (g.write w).logs name key = (g.logs name key || (w.1 == name && w.2.1 == key)) := by
  obtain ⟨missing, same⟩ | ⟨r, _, same⟩ := writeCases g w
  · have other : (w.1 == name) = false := by
      refine beq_eq_false_iff_ne.mpr fun equal => ?_
      obtain ⟨r, found⟩ := namedOfPresent present
      rw [← equal, missing] at found
      contradiction
    simp only [same, other, Bool.false_and, Bool.or_false]
  · rw [same]
    simp [logs]

theorem logsWrites (present : name ∈ names g.rules) (ws : List (String × String × OptionValue)) :
    (ws.foldl write g).logs name key =
      (g.logs name key || ws.any fun w => w.1 == name && w.2.1 == key) := by
  induction ws generalizing g with
  | nil => simp
  | cons w rest ih =>
    have there : name ∈ names (g.write w).rules := by
      rw [names, writeView Rule.steadyName]
      exact present
    rw [List.foldl_cons, ih there, logsWrite present, List.any_cons, Bool.or_assoc]

theorem presentJoined (present : name ∈ names g.reset.rules) : name ∈ names (g.joined c).rules := by
  obtain ⟨r, mem, same⟩ := List.mem_map.mp present
  exact List.mem_map.mpr ⟨r, List.mem_append_left _ mem, same⟩

theorem presentConfigure (present : name ∈ names g.reset.rules) :
    name ∈ names (g.configure c).rules := by
  rw [names, configureView Rule.steadyName]
  exact presentJoined present

theorem plainConfigure (present : name ∈ names g.reset.rules) :
    name ∉ (g.configure c).customNames := by
  obtain ⟨r, mem, same⟩ := List.mem_map.mp present
  rw [configureCustomNames, ← same]
  exact broughtApart mem

theorem logsConfigure (present : name ∈ names g.reset.rules) :
    (g.configure c).logs name key = c.sets name key := by
  rw [configureEq, logsWrites (presentJoined present)]
  simp [logs, joined, RulesConfig.sets]

theorem valueInConfigure (present : name ∈ names g.reset.rules) (unset : c.sets name key = false) :
    valueIn (g.configure c).rules name key = valueIn g.reset.rules name key := by
  have silent : (g.configure c).logs name key = false := (logsConfigure present).trans unset
  have back := valueInReset (presentConfigure (c := c) present) (plainConfigure present) key
  rw [findUnlogged silent, resetConfigure] at back
  exact back.symm

end Setting

theorem resetPristine {g : Registry} (plain : g.customNames = []) (unlogged : g.overwritten = []) :
    g.reset.rules = g.rules := by
  rw [resetEq, plain, unlogged]
  simp [unwind]

theorem configureForgetsHistory (g : Registry) (earlier : List RulesConfig) (last : RulesConfig) :
    (earlier ++ [last]).foldl configure g = g.configure last ∧
    (g.customNames = [] → g.overwritten = [] → ∀ name ∈ names g.rules, ∀ key,
      last.sets name key = false →
      valueIn ((earlier ++ [last]).foldl configure g).rules name key =
        valueIn g.rules name key) := by
  have forget : (earlier ++ [last]).foldl configure g = g.configure last := by
    rw [List.foldl_append]
    exact configureOfReset (resetConfigureAll g earlier) last
  refine ⟨forget, fun plain unlogged name present key unset => ?_⟩
  have pristine := resetPristine plain unlogged
  rw [forget, valueInConfigure (pristine ▸ present) unset, pristine]

theorem configureForgetsLimit :
    let g := empty.register ((Rule.declared { name := "a" }).set "max" "9")
    let c : RulesConfig := { options := [("a", [("max", .string "3")])] }
    valueIn (g.configure c).rules "a" "max" = some "3" ∧
    valueIn ([c, {}].foldl configure g).rules "a" "max" = some "9" := by
  intro g c
  have back := (configureForgetsHistory g [c] {}).2 rfl rfl "a" (by decide) "max" rfl
  exact ⟨by decide, back.trans (by decide)⟩

end Registry
end SyntaxAudit
