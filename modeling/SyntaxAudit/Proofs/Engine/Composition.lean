import SyntaxAudit.Proofs.Engine.HookOrder

/-! A scan rule by rule. What an engine reports on a file is what each of its enabled rules would
report alone, one after the other. A rule that fails reports nothing but its first failure, and no
rule is seen in the report of another. -/
namespace SyntaxAudit
open Sequence

def Registry.alone (g : Registry) (r : Rule) : Registry :=
  (Registry.empty.register r).configure { priority := g.overrides }

def soloScan (c : Compilers) (g : Registry) (file : SourceFile) (r : Rule) :
    Except EngineError ScanReport :=
  (Engine.build c (g.alone r)).map fun e => e.scan file

def Joins (reports : List ScanReport) (report : ScanReport) : Prop :=
  report.results = reports.flatMap ScanReport.results ∧
  report.faults = reports.flatMap ScanReport.faults

def Applies (r : Rule) (file : SourceFile) : Prop :=
  r.metadata.context.scan = true ∧ r.metadata.language.covers file.language = true

structure Contributes (override : Option Priority) (file : SourceFile) (r : Rule)
    (c : CompiledRule) (report : ScanReport) : Prop where
  skipped : ¬ Applies r file → report.results = [] ∧ report.faults = []
  reported : Applies r file → (∀ hook e, ¬ FirstFailure r c file hook e) →
    ∃ nodes together each, Chosen r c file nodes ∧ r.validateNodes nodes = .ok together ∧
      List.Forall₂ (fun n out => r.validateNode n = .ok out) nodes each ∧
      report.results = (together ++ each.flatten).map (completed override file) ∧
      report.faults = []
  failed : Applies r file → ∀ hook e, FirstFailure r c file hook e →
    report.results = [] ∧ report.faults = [⟨r.name, file.name, e.text⟩]

def Paired (c : Compilers) (r : Rule) (entry : Rule × CompiledRule) : Prop :=
  entry.1 = r ∧ CompiledRule.compile c r = .ok entry.2

def Contribution.report (p : Contribution Finding) (file : SourceFile) : ScanReport :=
  ⟨file.name, p.results, p.faults⟩

section Rule
variable {c : Compilers} {g : Registry} {file : SourceFile} {r : Rule} {compiled : CompiledRule}

theorem scanRuleIdle (idle : ¬ Applies r file) : scanRule g file r compiled = {} := by
  have test : ¬ (r.metadata.context.scan && r.metadata.language.covers file.language) = true :=
    mt Bool.and_eq_true_iff.mp idle
  simp only [scanRule, if_neg test]

theorem scanRuleOk {found : List Finding} (applies : Applies r file)
    (ok : findings r compiled file = .ok found) :
    scanRule g file r compiled =
      { results := found.map (completed (g.override? r.name) file) } := by
  simp only [scanRule, if_pos (Bool.and_eq_true_iff.mpr applies), ok]

theorem scanRuleError {e : Failure} (applies : Applies r file)
    (failed : findings r compiled file = .error e) :
    scanRule g file r compiled = { faults := [⟨r.name, file.name, e.text⟩] } := by
  simp only [scanRule, if_pos (Bool.and_eq_true_iff.mpr applies), failed, Failure.toFault]

theorem scanRuleContributes (g : Registry) (file : SourceFile) (r : Rule)
    (compiled : CompiledRule) :
    Contributes (g.override? r.name) file r compiled ((scanRule g file r compiled).report file) := by
  refine ⟨fun idle => ?_, fun applies clean => ?_, fun applies hook e first => ?_⟩
  · rw [scanRuleIdle idle]
    exact ⟨rfl, rfl⟩
  · cases outcome : findings r compiled file with
    | error e =>
      obtain ⟨hook, first⟩ := findingsFailure outcome
      exact absurd first (clean hook e)
    | ok found =>
      rw [scanRuleOk applies outcome]
      obtain ⟨nodes, together, each, chosen, all, single, rfl⟩ := findingsOk.mp outcome
      exact ⟨nodes, together, each, chosen, all, single, rfl, rfl⟩
  · rw [scanRuleError applies (failureFindings first)]
    exact ⟨rfl, rfl⟩

theorem buildOk {e : Engine} :
    Engine.build c g = .ok e ↔ e.registry = g ∧
      List.Forall₂ (fun r compiled => CompiledRule.compile c r = .ok compiled) g.enabledRules
        e.compiled := by
  constructor
  · intro ok
    obtain ⟨compiled, all, last⟩ := bindOk.mp ok
    cases last
    exact ⟨rfl, mapMOk.mp all⟩
  · rintro ⟨rfl, all⟩
    exact bindOk.mpr ⟨e.compiled, mapMOk.mpr all, rfl⟩

theorem buildOutcome (c : Compilers) (g : Registry) :
    (Engine.build c g).map Engine.compiled = g.enabledRules.mapM (CompiledRule.compile c) := by
  unfold Engine.build
  cases g.enabledRules.mapM (CompiledRule.compile c) <;> rfl

theorem zipPaired {rules : List Rule} {entries : List CompiledRule}
    (all : List.Forall₂ (fun r x => CompiledRule.compile c r = .ok x) rules entries) :
    List.Forall₂ (Paired c) rules (rules.zip entries) := by
  induction all with
  | nil => exact .nil
  | cons head tail ih => exact .cons ⟨rfl, head⟩ ih

theorem activePaired {e : Engine} (built : Engine.build c g = .ok e) :
    List.Forall₂ (Paired c) g.enabledRules e.active := by
  obtain ⟨rfl, all⟩ := buildOk.mp built
  exact zipPaired all

theorem soloScanOk (ok : CompiledRule.compile c r = .ok compiled) :
    soloScan c g file r = .ok ((scanRule g file r compiled).report file) := by
  have enabled : (g.alone r).enabledRules = [r] := rfl
  have built : Engine.build c (g.alone r) = .ok ⟨g.alone r, [compiled]⟩ := by
    refine buildOk.mpr ⟨rfl, ?_⟩
    rw [enabled]
    exact .cons ok .nil
  have single : (Engine.mk (g.alone r) [compiled]).scan file =
      (scanRule (g.alone r) file r compiled).report file := by
    simp [Engine.scan, Engine.active, enabled, Contribution.report]
  rw [soloScan, built]
  exact congrArg Except.ok single

end Rule

def Solo (c : Compilers) (g : Registry) (file : SourceFile) (r : Rule) (report : ScanReport) :
    Prop :=
  soloScan c g file r = .ok report ∧
    ∃ compiled, CompiledRule.compile c r = .ok compiled ∧
      Contributes (g.override? r.name) file r compiled report

section Rules
variable {c : Compilers} {g : Registry} {file : SourceFile}

theorem soloUnique {rules : List Rule} {xs ys : List ScanReport}
    (hx : List.Forall₂ (Solo c g file) rules xs) (hy : List.Forall₂ (Solo c g file) rules ys) :
    xs = ys := by
  induction hx generalizing ys with
  | nil => cases hy; rfl
  | cons head tail ih =>
    cases hy with
    | cons head' tail' =>
      have same := Except.ok.inj (head.1.symm.trans head'.1)
      rw [same, ih tail']

theorem soloOverrides {h : Registry} (same : g.overrides = h.overrides) :
    Solo c g file = Solo c h file := by
  funext r report
  simp only [Solo, soloScan, Registry.alone, Registry.override?, same]

theorem soloAll {rules : List Rule} {compiled : List CompiledRule}
    (all : List.Forall₂ (fun r x => CompiledRule.compile c r = .ok x) rules compiled) :
    List.Forall₂ (Solo c g file) rules
      ((rules.zip compiled).map fun rc => (scanRule g file rc.1 rc.2).report file) := by
  refine List.forall₂_map_right_iff.mpr ((zipPaired all).imp fun r entry paired => ?_)
  obtain ⟨rfl, own⟩ := paired
  exact ⟨soloScanOk own, entry.2, own, scanRuleContributes g file entry.1 entry.2⟩

theorem scanJoins {e : Engine} (built : Engine.build c g = .ok e) (file : SourceFile) :
    ∃ reports, List.Forall₂ (Solo c g file) g.enabledRules reports ∧
      Joins reports (e.scan file) := by
  obtain ⟨rfl, all⟩ := buildOk.mp built
  refine ⟨_, soloAll all, ?_, ?_⟩
  · simp only [Engine.scan, Engine.active, List.flatMap_map]
    rfl
  · simp only [Engine.scan, Engine.active, List.flatMap_map]
    rfl

theorem forall₂Split {α β : Type} {R : α → β → Prop} {xs ys : List α} {zs : List β}
    (h : List.Forall₂ R (xs ++ ys) zs) :
    ∃ us vs, zs = us ++ vs ∧ List.Forall₂ R xs us ∧ List.Forall₂ R ys vs := by
  induction xs generalizing zs with
  | nil => exact ⟨[], zs, rfl, .nil, h⟩
  | cons x rest ih =>
    cases h with
    | @cons _ z _ zs head tail =>
      obtain ⟨us, vs, rfl, first, second⟩ := ih tail
      exact ⟨z :: us, vs, rfl, .cons head first, second⟩

def Registry.allowed (g : Registry) (rules : List Rule) : List Rule :=
  rules.filter fun r => g.allows r.name

def Registry.rehooked (g : Registry) (before : List Rule) (r : Rule) (after : List Rule)
    (hooks : Hooks) : Registry :=
  { g with rules := before ++ { r with hooks } :: after }

theorem enabledSplit {before after : List Rule} {r : Rule}
    (rules : g.rules = before ++ r :: after) :
    g.enabledRules = g.allowed before ++ (g.allowed [r] ++ g.allowed after) := by
  unfold Registry.enabledRules
  rw [rules, ← List.singleton_append, List.filter_append, List.filter_append]
  rfl

theorem rehookedBuild {e : Engine} {before after : List Rule} {r : Rule}
    (built : Engine.build c g = .ok e) (rules : g.rules = before ++ r :: after) (hooks : Hooks) :
    Engine.build c (g.rehooked before r after hooks) =
      .ok ⟨g.rehooked before r after hooks, e.compiled⟩ := by
  have all := (buildOk.mp built).2
  have enabled : (g.rehooked before r after hooks).enabledRules =
      g.allowed before ++ (g.allowed [{ r with hooks }] ++ g.allowed after) := enabledSplit rfl
  rw [enabledSplit rules] at all
  obtain ⟨xs, ys, same, first, rest⟩ := forall₂Split all
  obtain ⟨own, zs, rfl, middle, last⟩ := forall₂Split rest
  refine buildOk.mpr ⟨rfl, ?_⟩
  rw [enabled, same]
  refine List.rel_append first (List.rel_append ?_ last)
  cases runs : g.allows r.name with
  | true =>
    have runs' : g.allows ({ r with hooks } : Rule).name = true := runs
    simp only [Registry.allowed, List.filter_cons, runs, runs', List.filter_nil] at middle ⊢
    cases middle with
    | cons head tail => exact .cons head tail
  | false =>
    have runs' : g.allows ({ r with hooks } : Rule).name = false := runs
    simp only [Registry.allowed, List.filter_cons, runs, runs', List.filter_nil] at middle ⊢
    exact middle

theorem scanJoinsSplit {e : Engine} {before after : List Rule} {r : Rule}
    (built : Engine.build c g = .ok e) (rules : g.rules = before ++ r :: after)
    (file : SourceFile) :
    ∃ ahead own behind, List.Forall₂ (Solo c g file) (g.allowed before) ahead ∧
      List.Forall₂ (Solo c g file) (g.allowed [r]) own ∧
      List.Forall₂ (Solo c g file) (g.allowed after) behind ∧
      Joins (ahead ++ own ++ behind) (e.scan file) := by
  obtain ⟨reports, all, joins⟩ := scanJoins built file
  rw [enabledSplit rules] at all
  obtain ⟨ahead, rest, rfl, first, others⟩ := forall₂Split all
  obtain ⟨own, behind, rfl, middle, last⟩ := forall₂Split others
  rw [← List.append_assoc] at joins
  exact ⟨ahead, own, behind, first, middle, last, joins⟩

end Rules

theorem scanComposes {c : Compilers} {g : Registry} {e : Engine}
    (built : Engine.build c g = .ok e) (file : SourceFile) :
    (e.scan file).file = file.name ∧
    (∃ reports, List.Forall₂ (Solo c g file) g.enabledRules reports ∧
      Joins reports (e.scan file)) ∧
    ∀ (before : List Rule) (r : Rule) (after : List Rule) (hooks : Hooks),
      g.rules = before ++ r :: after →
      ∃ e' ahead own own' behind,
        Engine.build c (g.rehooked before r after hooks) = .ok e' ∧
        List.Forall₂ (Solo c g file) (g.allowed before) ahead ∧
        List.Forall₂ (Solo c g file) (g.allowed [r]) own ∧
        List.Forall₂ (Solo c g file) (g.allowed [{ r with hooks }]) own' ∧
        List.Forall₂ (Solo c g file) (g.allowed after) behind ∧
        Joins (ahead ++ own ++ behind) (e.scan file) ∧
        Joins (ahead ++ own' ++ behind) (e'.scan file) := by
  refine ⟨rfl, scanJoins built file, fun before r after hooks rules => ?_⟩
  have built' := rehookedBuild built rules hooks
  obtain ⟨ahead, own, behind, first, middle, last, joins⟩ := scanJoinsSplit built rules file
  obtain ⟨ahead', own', behind', first', middle', last', joins'⟩ := scanJoinsSplit built' rfl file
  have same : Solo c (g.rehooked before r after hooks) file = Solo c g file := soloOverrides rfl
  rw [same] at first' middle' last'
  have front : ahead = ahead' := soloUnique first first'
  have back : behind = behind' := soloUnique last last'
  subst front back
  exact ⟨_, ahead, own, own', behind, built', first, middle, middle', last, joins, joins'⟩

theorem scanComposesBroken :
    let compilers : Compilers := ⟨fun _ _ => .error "", fun _ => .error ""⟩
    let broken : Rule :=
      { metadata := { name := "broken", context := .scanning }
        hooks := { validateNode := fun _ _ _ => .error (.message "boom") } }
    let healthy : Rule := Rule.declared { name := "healthy", context := .scanning }
    let g := (Registry.empty.register broken).register healthy
    let e : Engine := ⟨g, [{}, {}]⟩
    let row : Row := ⟨none, "module", true, false, false, false, 0, 1, none⟩
    let file : SourceFile := ⟨"a.py", .python, ⟨"x", #[row], [], by decide⟩⟩
    Engine.build compilers g = .ok e ∧
    (e.scan file).faults = [⟨"broken", "a.py", "boom"⟩] ∧
    (e.scan file).results.map Finding.rule = ["healthy"] ∧
    ∃ reports, List.Forall₂ (Solo compilers g file) [broken, healthy] reports ∧
      Joins reports (e.scan file) := by
  intro compilers broken healthy g e row file
  have built : Engine.build compilers g = .ok e := rfl
  exact ⟨built, rfl, rfl, (scanComposes built file).2.1⟩

end SyntaxAudit
