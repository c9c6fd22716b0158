import Mathlib.Data.List.Nodup
import SyntaxAudit.Proofs.Engine.Division
import SyntaxAudit.Proofs.Registry.Rules

/-! A measurement accounts for every rule that takes part in it. The rules that are active in a file
are split, in their order, into those that are measured and those that fail, and each of them is
found once in one of the two lists. What one rule does is not seen in what another one measures. -/
namespace SyntaxAudit
open Sequence Rules

inductive MeasureFailure (r : Rule) (c : CompiledRule) (file : SourceFile) :
    HookName → Failure → Prop where
  | choosing {hook e} (first : FirstFailure r c file hook e) (chooses : hook.Chooses) :
      MeasureFailure r c file hook e
  | measureNodes {nodes e} (chosen : Chosen r c file nodes) (fails : r.measureNodes nodes = .error e) :
      MeasureFailure r c file .measureNodes e

def MeasuredAs (c : Compilers) (file : SourceFile) (r : Rule) (groups : Groups (Node file.tree)) :
    Prop :=
  ∃ compiled nodes, CompiledRule.compile c r = .ok compiled ∧ Chosen r compiled file nodes ∧
    r.measureNodes nodes = .ok groups

def FailsWith (c : Compilers) (file : SourceFile) (r : Rule) (e : Failure) : Prop :=
  ∃ compiled hook, CompiledRule.compile c r = .ok compiled ∧ MeasureFailure r compiled file hook e

inductive Splits (c : Compilers) (file : SourceFile) :
    List Rule → List (Measurement file.tree) → List Fault → Prop where
  | nil : Splits c file [] [] []
  | idle {r rest measurements faults} (apart : ¬ Measures r file)
      (tail : Splits c file rest measurements faults) :
      Splits c file (r :: rest) measurements faults
  | measured {r rest measurements faults groups} (active : Measures r file)
      (counted : MeasuredAs c file r groups) (tail : Splits c file rest measurements faults) :
      Splits c file (r :: rest) (⟨r.name, groups⟩ :: measurements) faults
  | failed {r rest measurements faults e} (active : Measures r file)
      (fails : FailsWith c file r e) (tail : Splits c file rest measurements faults) :
      Splits c file (r :: rest) measurements (⟨r.name, file.name, e.text⟩ :: faults)

section Rule
variable {c : Compilers} {r : Rule} {compiled : CompiledRule} {file : SourceFile}
  {groups : Groups (Node file.tree)} {e : Failure}

theorem measuredOk : measured r compiled file = .ok groups ↔
    ∃ nodes, Chosen r compiled file nodes ∧ r.measureNodes nodes = .ok groups := by
  constructor
  · intro ok
    obtain ⟨nodes, chosen, counted⟩ := bindOk.mp ok
    exact ⟨nodes, candidatesSound chosen, counted⟩
  · rintro ⟨nodes, chosen, counted⟩
    exact bindOk.mpr ⟨nodes, candidatesComplete chosen, counted⟩

theorem measuredError :
    measured r compiled file = .error e ↔ ∃ hook, MeasureFailure r compiled file hook e := by
  constructor
  · intro failed
    obtain early | ⟨nodes, chosen, fails⟩ := bindError.mp failed
    · obtain ⟨hook, first, chooses⟩ := candidatesFailure early
      exact ⟨hook, .choosing first chooses⟩
    · exact ⟨_, .measureNodes (candidatesSound chosen) fails⟩
  · rintro ⟨hook, failure⟩
    cases failure with
    | choosing first chooses => exact bindError.mpr (.inl (failureCandidates first chooses))
    | measureNodes chosen fails =>
      exact bindError.mpr (.inr ⟨_, candidatesComplete chosen, fails⟩)

theorem measuredAsOwn (own : CompiledRule.compile c r = .ok compiled) :
    MeasuredAs c file r groups ↔ measured r compiled file = .ok groups := by
  rw [measuredOk]
  constructor
  · rintro ⟨other, nodes, same, chosen, counted⟩
    cases own.symm.trans same
    exact ⟨nodes, chosen, counted⟩
  · rintro ⟨nodes, chosen, counted⟩
    exact ⟨compiled, nodes, own, chosen, counted⟩

theorem failsWithOwn (own : CompiledRule.compile c r = .ok compiled) :
    FailsWith c file r e ↔ measured r compiled file = .error e := by
  rw [measuredError]
  constructor
  · rintro ⟨other, hook, same, failure⟩
    cases own.symm.trans same
    exact ⟨hook, failure⟩
  · rintro ⟨hook, failure⟩
    exact ⟨compiled, hook, own, failure⟩

theorem measuredOrFails (own : CompiledRule.compile c r = .ok compiled) (file : SourceFile) :
    (∃ groups, MeasuredAs c file r groups) ∨ ∃ e, FailsWith c file r e := by
  cases outcome : measured r compiled file with
  | ok groups => exact .inl ⟨groups, (measuredAsOwn own).mpr outcome⟩
  | error e => exact .inr ⟨e, (failsWithOwn own).mpr outcome⟩

theorem measureRuleMember {m : Measurement file.tree} :
    m ∈ (measureRule file r compiled).results ↔
      Measures r file ∧ m.rule = r.name ∧ measured r compiled file = .ok m.groups := by
  by_cases active : Measures r file
  · cases outcome : measured r compiled file with
    | error e => simp [measureRuleError active outcome]
    | ok groups =>
      obtain ⟨rule, own⟩ := m
      simp [measureRuleOk active outcome, active, eq_comm]
  · simp [measureRuleIdle active, active]

end Rule

section Rules
variable {c : Compilers} {file : SourceFile} {rules : List Rule}
  {measurements : List (Measurement file.tree)} {faults : List Fault}

theorem splitsTotal (compiled : ∀ r ∈ rules, ∃ own, CompiledRule.compile c r = .ok own)
    (file : SourceFile) : ∃ measurements faults, Splits c file rules measurements faults := by
  induction rules with
  | nil => exact ⟨[], [], .nil⟩
  | cons r rest ih =>
    obtain ⟨measurements, faults, tail⟩ := ih fun s mem => compiled s (List.mem_cons_of_mem r mem)
    obtain ⟨own, ok⟩ := compiled r List.mem_cons_self
    by_cases active : Measures r file
    · obtain ⟨groups, counted⟩ | ⟨e, fails⟩ := measuredOrFails ok file
      · exact ⟨_, _, .measured active counted tail⟩
      · exact ⟨_, _, .failed active fails tail⟩
    · exact ⟨_, _, .idle active tail⟩

theorem splitsOutput (compiled : ∀ r ∈ rules, CompiledRule.compile c r = .ok (CompiledRule.own c r))
    (splits : Splits c file rules measurements faults) :
    measurements = rules.flatMap (fun r => (measureRule file r (CompiledRule.own c r)).results) ∧
      faults = rules.flatMap (fun r => (measureRule file r (CompiledRule.own c r)).faults) := by
  induction splits with
  | nil => exact ⟨rfl, rfl⟩
  | @idle r rest measurements faults apart tail ih =>
    obtain ⟨same, same'⟩ := ih fun s mem => compiled s (List.mem_cons_of_mem r mem)
    rw [List.flatMap_cons, List.flatMap_cons, measureRuleIdle apart, same, same']
    exact ⟨rfl, rfl⟩
  | @measured r rest measurements faults groups active counted tail ih =>
    obtain ⟨same, same'⟩ := ih fun s mem => compiled s (List.mem_cons_of_mem r mem)
    have outcome := (measuredAsOwn (compiled r List.mem_cons_self)).mp counted
    rw [List.flatMap_cons, List.flatMap_cons, measureRuleOk active outcome, same, same']
    exact ⟨rfl, rfl⟩
  | @failed r rest measurements faults e active fails tail ih =>
    obtain ⟨same, same'⟩ := ih fun s mem => compiled s (List.mem_cons_of_mem r mem)
    have outcome := (failsWithOwn (compiled r List.mem_cons_self)).mp fails
    rw [List.flatMap_cons, List.flatMap_cons, measureRuleError active outcome, same, same']
    exact ⟨rfl, rfl⟩

theorem splitsLength (splits : Splits c file rules measurements faults) :
    measurements.length + faults.length = (rules.filter fun r => Measures r file).length := by
  induction splits with
  | nil => rfl
  | idle apart tail ih => rw [List.filter_cons_of_neg (by simpa using apart), ih]
  | measured active counted tail ih =>
    rw [List.filter_cons_of_pos (by simpa using active), List.length_cons, List.length_cons]
    omega
  | failed active fails tail ih =>
    rw [List.filter_cons_of_pos (by simpa using active), List.length_cons, List.length_cons]
    omega

theorem splitsNames (splits : Splits c file rules measurements faults) :
    (measurements.map Measurement.rule).Sublist (names rules) := by
  induction splits with
  | nil => exact .slnil
  | idle apart tail ih => exact .cons _ ih
  | measured active counted tail ih => exact .cons_cons _ ih
  | failed active fails tail ih => exact .cons _ ih

end Rules

theorem getDistinct {t : Tree} {report : MeasureReport t} {name : String} {groups : Groups (Node t)}
    (distinct : (report.measurements.map Measurement.rule).Nodup) :
    report.get? name = some groups ↔ ⟨name, groups⟩ ∈ report.measurements := by
  unfold MeasureReport.get?
  rw [Option.map_eq_some_iff]
  constructor
  · rintro ⟨m, found, rfl⟩
    have named : m.rule = name := by simpa using List.find?_some found
    rw [← named]
    exact List.mem_of_find?_eq_some found
  · intro mem
    have present : (report.measurements.find? fun m => m.rule == name).isSome :=
      List.find?_isSome.mpr ⟨_, mem, beq_self_eq_true name⟩
    obtain ⟨m, found⟩ := Option.isSome_iff_exists.mp present
    have named : m.rule = name := by simpa using List.find?_some found
    have same := List.inj_on_of_nodup_map distinct (List.mem_of_find?_eq_some found) mem named
    exact ⟨m, found, congrArg Measurement.groups same⟩

section Engine
variable {c : Compilers} {g : Registry} {e : Engine}

theorem measureSplits (built : Engine.build c g = .ok e) (file : SourceFile)
    (measurements : List (Measurement file.tree)) (faults : List Fault) :
    Splits c file g.enabledRules measurements faults ↔
      measurements = (e.measure file).measurements ∧ faults = (e.measure file).faults := by
  have own : ∀ r ∈ g.enabledRules, CompiledRule.compile c r = .ok (CompiledRule.own c r) :=
    fun r mem => ownCompiled built mem
  rw [measureOwn built]
  refine ⟨splitsOutput own, ?_⟩
  rintro ⟨rfl, rfl⟩
  -- There is a split, and the rules leave no choice which one it is.
  obtain ⟨measurements, faults, splits⟩ := splitsTotal (fun r mem => ⟨_, own r mem⟩) file
  obtain ⟨rfl, rfl⟩ := splitsOutput own splits
  exact splits

theorem measureMember (built : Engine.build c g = .ok e) {file : SourceFile}
    {m : Measurement file.tree} :
    m ∈ (e.measure file).measurements ↔
      ∃ r ∈ g.enabledRules, r.name = m.rule ∧ Measures r file ∧ MeasuredAs c file r m.groups := by
  rw [measureOwn built, List.mem_flatMap]
  refine exists_congr fun r => and_congr_right fun enabled => ?_
  rw [measureRuleMember, measuredAsOwn (ownCompiled built enabled), eq_comm, and_left_comm]

theorem measureNamesDistinct (built : Engine.build c g = .ok e) (file : SourceFile)
    (distinct : (names g.rules).Nodup) :
    ((e.measure file).measurements.map Measurement.rule).Nodup := by
  have splits := (measureSplits built file _ _).mpr ⟨rfl, rfl⟩
  have fewer : (names g.enabledRules).Sublist (names g.rules) := List.filter_sublist.map Rule.name
  exact distinct.sublist ((splitsNames splits).trans fewer)

theorem measureGet (built : Engine.build c g = .ok e) {file : SourceFile} {name : String}
    (distinct : (names g.rules).Nodup) (groups : Groups (Node file.tree)) :
    (e.measure file).get? name = some groups ↔
      ∃ r ∈ g.enabledRules, r.name = name ∧ Measures r file ∧ MeasuredAs c file r groups := by
  rw [getDistinct (measureNamesDistinct built file distinct), measureMember built]

theorem measureGetNone (built : Engine.build c g = .ok e) {file : SourceFile} {name : String}
    (distinct : (names g.rules).Nodup) :
    (e.measure file).get? name = none ↔
      ∀ r ∈ g.enabledRules, r.name = name → Measures r file → ∃ e, FailsWith c file r e := by
  rw [Option.eq_none_iff_forall_ne_some]
  constructor
  · intro absent r enabled named active
    obtain ⟨groups, counted⟩ | fails := measuredOrFails (ownCompiled built enabled) file
    · have found := (measureGet built distinct groups).mpr ⟨r, enabled, named, active, counted⟩
      exact absurd found (absent groups)
    · exact fails
  · intro all groups found
    obtain ⟨r, enabled, named, active, counted⟩ := (measureGet built distinct groups).mp found
    obtain ⟨failure, fails⟩ := all r enabled named active
    have own := ownCompiled built enabled
    cases ((measuredAsOwn own).mp counted).symm.trans ((failsWithOwn own).mp fails)

theorem measureIsolated (built : Engine.build c g = .ok e) (file : SourceFile) (before : List Rule)
    (r : Rule) (after : List Rule) (hooks : Hooks) (rules : g.rules = before ++ r :: after) :
    ∃ e' ahead own own' behind,
      Engine.build c (g.rehooked before r after hooks) = .ok e' ∧ BuiltOf c g before ahead ∧
      BuiltOf c g [r] own ∧ BuiltOf c g [{ r with hooks }] own' ∧ BuiltOf c g after behind ∧
      MeasureJoins [ahead.measure file, own.measure file, behind.measure file] (e.measure file) ∧
      MeasureJoins [ahead.measure file, own'.measure file, behind.measure file]
        (e'.measure file) := by
  have built' := rehookedBuild built rules hooks
  obtain ⟨ahead, own, behind, first, middle, last⟩ := buildAround built rules
  -- The rules around stay the same under the same lists, so their engines serve both registries.
  obtain ⟨_, own', _, _, middle', _⟩ := buildAround built' rfl
  have joins := (reportsAround built rules first middle last file).2
  have joins' := (reportsAround built' rfl first middle' last file).2
  exact ⟨_, ahead, own, own', behind, built', first, middle, middle', last, joins, joins'⟩

end Engine

theorem measureAccountsForAll {c : Compilers} {g : Registry} {e : Engine}
    (built : Engine.build c g = .ok e) (file : SourceFile) :
    (∀ measurements faults, Splits c file g.enabledRules measurements faults ↔
      measurements = (e.measure file).measurements ∧ faults = (e.measure file).faults) ∧
    (e.measure file).measurements.length + (e.measure file).faults.length =
      (g.enabledRules.filter fun r => Measures r file).length ∧
    (∀ (before : List Rule) (r : Rule) (after : List Rule) (hooks : Hooks),
      g.rules = before ++ r :: after →
      ∃ e' ahead own own' behind,
        Engine.build c (g.rehooked before r after hooks) = .ok e' ∧ BuiltOf c g before ahead ∧
        BuiltOf c g [r] own ∧ BuiltOf c g [{ r with hooks }] own' ∧ BuiltOf c g after behind ∧
        MeasureJoins [ahead.measure file, own.measure file, behind.measure file] (e.measure file) ∧
        MeasureJoins [ahead.measure file, own'.measure file, behind.measure file]
          (e'.measure file)) ∧
    ((names g.rules).Nodup → ∀ name,
      (∀ groups, (e.measure file).get? name = some groups ↔
        ∃ r ∈ g.enabledRules, r.name = name ∧ Measures r file ∧ MeasuredAs c file r groups) ∧
      ((e.measure file).get? name = none ↔
        ∀ r ∈ g.enabledRules, r.name = name → Measures r file → ∃ e, FailsWith c file r e)) := by
  have splits := (measureSplits built file _ _).mpr ⟨rfl, rfl⟩
  refine ⟨measureSplits built file, splitsLength splits, measureIsolated built file, ?_⟩
  exact fun distinct name => ⟨measureGet built distinct, measureGetNone built distinct⟩

theorem measureAccountsForFailing :
    let compilers : Compilers := ⟨fun _ _ => .error "", fun _ => .error ""⟩
    let early : Rule :=
      { metadata := { name := "early", context := .measuring }
        hooks := { validateRoot := fun _ _ _ => .error (.message "no root"),
                   measureNodes := fun _ _ _ => .error .unlabelled } }
    let counts : Rule := Rule.declared { name := "counts", context := .measuring }
    let scans : Rule := Rule.declared { name := "scans", context := .scanning }
    let late : Rule :=
      { metadata := { name := "late", context := .measuring }
        hooks := { measureNodes := fun _ _ _ => .error .unlabelled } }
    let g : Registry := { rules := [early, counts, scans, late] }
    let row : Row := ⟨none, "module", true, false, false, false, 0, 1, none⟩
    let file : SourceFile := ⟨"a.py", .python, ⟨"x", #[row], [], by decide⟩⟩
    ∃ e, Engine.build compilers g = .ok e ∧
      (e.measure file).measurements.map Measurement.rule = ["counts"] ∧
      (e.measure file).faults =
        [⟨"early", "a.py", "no root"⟩, ⟨"late", "a.py", "rule panicked"⟩] ∧
      (g.enabledRules.filter fun r => Measures r file).length = 3 ∧
      (∃ groups, (e.measure file).get? "counts" = some groups ∧
        ∃ r ∈ g.enabledRules, r.name = "counts" ∧ Measures r file ∧
          MeasuredAs compilers file r groups) ∧
      (e.measure file).get? "late" = none ∧
      ∀ r ∈ g.enabledRules, r.name = "late" → Measures r file →
        ∃ e, FailsWith compilers file r e := by
  intro compilers early counts scans late g row file
  obtain ⟨e, built⟩ : ∃ e, Engine.build compilers g = .ok e := ⟨_, rfl⟩
  have distinct : (names g.rules).Nodup := by decide
  obtain ⟨_, count, _, get⟩ := measureAccountsForAll built file
  have absent : (e.measure file).get? "late" = none := by
    cases built
    decide +kernel
  have present : ((e.measure file).get? "counts").isSome = true := by
    cases built
    decide +kernel
  obtain ⟨groups, found⟩ := Option.isSome_iff_exists.mp present
  refine ⟨e, built, ?_, ?_, ?_, ⟨groups, found, ((get distinct "counts").1 groups).mp found⟩, absent,
    (get distinct "late").2.mp absent⟩
  · cases built
    decide +kernel
  · cases built
    decide +kernel
  · rw [← count]
    cases built
    decide +kernel

end SyntaxAudit
