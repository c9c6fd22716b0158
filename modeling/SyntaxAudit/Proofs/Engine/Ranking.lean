import SyntaxAudit.Proofs.Engine.Parts
import SyntaxAudit.Proofs.Registry.Effect

/-! The priorities of a configuration only rank. Under other priorities the same rules compile and
report the same findings in the same order, and they measure and fail the same. A priority that is
set for a name is that of every finding of its rules; all others keep the one they were given. -/
namespace SyntaxAudit

structure Finding.SameButRank (f f' : Finding) : Prop where
  rule : f'.rule = f.rule
  message : f'.message = f.message
  suggestion : f'.suggestion = f.suggestion
  node : f'.node = f.node
  file : f'.file = f.file

structure Finding.Ranked (override : Option Priority) (given reported : Finding) : Prop where
  rule : reported.rule = given.rule
  message : reported.message = given.message
  suggestion : reported.suggestion = given.suggestion
  node : reported.node = given.node
  overridden : ∀ p, override = some p → reported.priority = p ∧ reported.severity = p.severity
  kept : override = none →
    reported.priority = given.priority ∧ reported.severity = given.severity

structure Ranks (override : Option Priority) (file : SourceFile) (r : Rule) (compiled : CompiledRule)
    (results : List Finding) : Prop where
  reported : Applies r file → ∀ given, findings r compiled file = .ok given →
    List.Forall₂ (Finding.Ranked override) given results
  idle : ¬ Applies r file → results = []
  failed : ∀ failure, findings r compiled file = .error failure → results = []

def RanksOwn (c : Compilers) (priority : List (String × Priority)) (file : SourceFile) (r : Rule)
    (results : List Finding) : Prop :=
  ∃ compiled, CompiledRule.compile c r = .ok compiled ∧
    Ranks (priority.lookup r.name) file r compiled results

theorem completedSame (override override' : Option Priority) (file : SourceFile) (f : Finding) :
    (completed override file f).SameButRank (completed override' file f) := by
  cases override <;> cases override' <;> exact ⟨rfl, rfl, rfl, rfl, rfl⟩

theorem completedRanked (override : Option Priority) (file : SourceFile) (f : Finding) :
    f.Ranked override (completed override file f) := by
  cases override with
  | none => exact ⟨rfl, rfl, rfl, rfl, nofun, fun _ => ⟨rfl, rfl⟩⟩
  | some p =>
    refine ⟨rfl, rfl, rfl, rfl, fun q same => ?_, nofun⟩
    cases same
    exact ⟨rfl, rfl⟩

theorem scanRuleSame (g h : Registry) (file : SourceFile) (r : Rule) (compiled : CompiledRule) :
    List.Forall₂ Finding.SameButRank (scanRule g file r compiled).results
      (scanRule h file r compiled).results ∧
    (scanRule h file r compiled).faults = (scanRule g file r compiled).faults := by
  by_cases applies : Applies r file
  · cases outcome : findings r compiled file with
    | error e =>
      rw [scanRuleError applies outcome, scanRuleError applies outcome]
      exact ⟨.nil, rfl⟩
    | ok found =>
      rw [scanRuleOk applies outcome, scanRuleOk applies outcome, List.forall₂_map_left_iff,
        List.forall₂_map_right_iff, List.forall₂_same]
      exact ⟨fun f _ => completedSame _ _ file f, rfl⟩
  · rw [scanRuleIdle applies, scanRuleIdle applies]
    exact ⟨.nil, rfl⟩

theorem scanRuleRanks (g : Registry) (file : SourceFile) (r : Rule) (compiled : CompiledRule) :
    Ranks (g.override? r.name) file r compiled (scanRule g file r compiled).results := by
  refine ⟨fun applies given ok => ?_, fun idle => ?_, fun failure failed => ?_⟩
  · rw [scanRuleOk applies ok, List.forall₂_map_right_iff, List.forall₂_same]
    exact fun f _ => completedRanked _ file f
  · rw [scanRuleIdle idle]
  · by_cases applies : Applies r file
    · rw [scanRuleError applies failed]
    · rw [scanRuleIdle applies]

section Scans
variable {c : Compilers} {g h : Registry} {e e' : Engine}

theorem scanSame (built : Engine.build c g = .ok e) (built' : Engine.build c h = .ok e')
    (rules : h.enabledRules = g.enabledRules) (file : SourceFile) :
    List.Forall₂ Finding.SameButRank (e.scan file).results (e'.scan file).results ∧
      (e'.scan file).faults = (e.scan file).faults := by
  rw [scanOwn built, scanOwn built', rules]
  simp only [List.flatMap_def]
  constructor
  · apply List.rel_flatten
    rw [List.forall₂_map_left_iff, List.forall₂_map_right_iff, List.forall₂_same]
    exact fun r _ => (scanRuleSame g h file r _).1
  · congr 2
    funext r
    exact (scanRuleSame g h file r _).2

theorem measureSame (built : Engine.build c g = .ok e) (built' : Engine.build c h = .ok e')
    (rules : h.enabledRules = g.enabledRules) (file : SourceFile) :
    e'.measure file = e.measure file := by
  rw [measureOwn built, measureOwn built', rules]

theorem scanRanks (built : Engine.build c g = .ok e) (file : SourceFile) :
    ∃ parts, List.Forall₂ (RanksOwn c g.overrides file) g.enabledRules parts ∧
      (e.scan file).results = parts.flatten := by
  refine ⟨g.enabledRules.map fun r => (scanRule g file r (CompiledRule.own c r)).results, ?_, ?_⟩
  · rw [List.forall₂_map_right_iff, List.forall₂_same]
    exact fun r enabled => ⟨_, ownCompiled built enabled, scanRuleRanks g file r _⟩
  · rw [scanOwn built]
    exact List.flatMap_def

end Scans

theorem enabledReprioritized (g : Registry) (c : RulesConfig) (priority : List (String × Priority)) :
    (g.configure { c with priority }).enabledRules = (g.configure c).enabledRules := by
  have rules : (g.configure { c with priority }).rules = (g.configure c).rules :=
    g.configureRules c { c with priority } rfl rfl
  rw [Registry.enabledConfigure, Registry.enabledConfigure, rules]
  rfl

theorem prioritiesOnlyRank (compilers : Compilers) (g : Registry) (c : RulesConfig)
    (priority : List (String × Priority)) :
    (Engine.build compilers (g.configure { c with priority })).map Engine.compiled =
      (Engine.build compilers (g.configure c)).map Engine.compiled ∧
    ∀ e e', Engine.build compilers (g.configure c) = .ok e →
      Engine.build compilers (g.configure { c with priority }) = .ok e' → ∀ file,
      List.Forall₂ Finding.SameButRank (e.scan file).results (e'.scan file).results ∧
      (e'.scan file).faults = (e.scan file).faults ∧
      e'.measure file = e.measure file ∧
      ∃ parts, List.Forall₂ (RanksOwn compilers c.priority file) (g.configure c).enabledRules parts ∧
        (e.scan file).results = parts.flatten := by
  have rules := enabledReprioritized g c priority
  -- Priorities have no part in which rules there are and run; the rest is rule by rule.
  refine ⟨by rw [buildOutcome, buildOutcome, rules], fun e e' built built' file => ?_⟩
  obtain ⟨results, faults⟩ := scanSame built built' rules file
  have ranks := scanRanks built file
  rw [(g.configureLists c).2.2] at ranks
  exact ⟨results, faults, measureSame built built' rules file, ranks⟩

theorem prioritiesOnlyRankLoud :
    let compilers : Compilers := ⟨fun _ _ => .error "", fun _ => .error ""⟩
    let loud : Rule :=
      { metadata := { name := "loud", context := .scanning }
        hooks :=
          { validateNode := fun p _ n => .ok [(Finding.ofRule p.metadata n).withPriority .high] } }
    let quiet : Rule := Rule.declared { name := "quiet", context := .scanning }
    let g : Registry := { rules := [loud, quiet] }
    let c : RulesConfig := { priority := [("loud", .medium), ("absent", .high)] }
    let row : Row := ⟨none, "module", true, false, false, false, 0, 1, none⟩
    let file : SourceFile := ⟨"a.py", .python, ⟨"x", #[row], [], by decide⟩⟩
    ∃ e e', Engine.build compilers (g.configure c) = .ok e ∧
      Engine.build compilers (g.configure { c with priority := [("quiet", .high)] }) = .ok e' ∧
      (e.scan file).results.map Finding.severity = [.warning, .info] ∧
      (e'.scan file).results.map Finding.severity = [.error, .error] ∧
      List.Forall₂ Finding.SameButRank (e.scan file).results (e'.scan file).results := by
  intro compilers loud quiet g c row file
  let priority : List (String × Priority) := [("quiet", .high)]
  obtain ⟨e, built⟩ : ∃ e, Engine.build compilers (g.configure c) = .ok e := ⟨_, rfl⟩
  obtain ⟨e', built'⟩ : ∃ e', Engine.build compilers (g.configure { c with priority }) = .ok e' :=
    ⟨_, rfl⟩
  have same := ((prioritiesOnlyRank compilers g c priority).2 e e' built built' file).1
  refine ⟨e, e', built, built', ?_, ?_, same⟩
  · cases built
    decide +kernel
  · cases built'
    decide +kernel

end SyntaxAudit
