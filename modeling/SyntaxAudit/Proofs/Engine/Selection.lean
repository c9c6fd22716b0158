import SyntaxAudit.Proofs.Engine.Authorship
import SyntaxAudit.Proofs.Engine.Parts

/-! The lists of enabled and disabled rules only select. A rule signs what it reports with its own
name, and it reports the same whichever rules run beside it. So a report under the lists is the
report without them, kept to the names that they permit. -/
namespace SyntaxAudit
open Sequence Rules

def Signed (p : Profile) (answer : Outcome (List Finding)) : Prop :=
  ∀ found, answer = .ok found → ∀ f ∈ found, f.rule = p.metadata.name

structure Hooks.Signs (h : Hooks) : Prop where
  together : ∀ p t nodes, Signed p (h.validateNodes p t nodes)
  single : ∀ p t n, Signed p (h.validateNode p t n)

theorem Hooks.Faithful.signs {h : Hooks} (faithful : h.Faithful) : h.Signs := by
  refine ⟨fun p t nodes found ok f mem => ?_, fun p t n found ok f mem => ?_⟩
  · obtain ⟨_, _, made⟩ := faithful.together p t nodes found ok f mem
    exact made.rule
  · obtain ⟨_, _, made⟩ := faithful.single p t n found ok f mem
    exact made.rule

theorem signsConfigure {g : Registry} (old : ∀ r ∈ g.reset.rules, r.hooks.Signs) (c : RulesConfig)
    {r : Rule} (mem : r ∈ (g.configure c).rules) : r.hooks.Signs :=
  hooksConfigure old (fun m => (faithfulDeclared m).signs) c mem

theorem signsBuiltin {r : Rule} (mem : r ∈ Registry.builtin.reset.rules) : r.hooks.Signs :=
  (faithfulBuiltin mem).signs

section Parts
variable {g : Registry} {file : SourceFile} {r : Rule} {compiled : CompiledRule}

theorem findingsSigned (signs : r.hooks.Signs) : Signed r.toProfile (findings r compiled file) := by
  intro found ok f mem
  obtain ⟨nodes, together, each, _, all, single, rfl⟩ := findingsOk.mp ok
  rcases List.mem_append.mp mem with first | later
  · exact signs.together _ _ _ together all f first
  · obtain ⟨out, inside, last⟩ := List.mem_flatten.mp later
    obtain ⟨n, _, answer⟩ := answerOf single inside
    exact signs.single _ _ n out answer f last

theorem completedRule (override : Option Priority) (file : SourceFile) (f : Finding) :
    (completed override file f).rule = f.rule := by
  cases override <;> rfl

theorem scanRuleBears (signs : r.hooks.Signs) :
    (scanRule g file r compiled).Bears Finding.rule r.name := by
  by_cases applies : Applies r file
  · cases outcome : findings r compiled file with
    | ok found =>
      rw [scanRuleOk applies outcome]
      refine ⟨fun f mem => ?_, nofun⟩
      obtain ⟨f, inside, rfl⟩ := List.mem_map.mp mem
      rw [completedRule]
      exact findingsSigned signs found outcome f inside
    | error e =>
      rw [scanRuleError applies outcome]
      refine ⟨nofun, fun f mem => ?_⟩
      rw [List.mem_singleton.mp mem]
  · rw [scanRuleIdle applies]
    exact ⟨nofun, nofun⟩

theorem measureRuleBears : (measureRule file r compiled).Bears Measurement.rule r.name := by
  by_cases active : Measures r file
  · cases outcome : measured r compiled file with
    | ok groups =>
      rw [measureRuleOk active outcome]
      refine ⟨fun m mem => ?_, nofun⟩
      rw [List.mem_singleton.mp mem]
    | error e =>
      rw [measureRuleError active outcome]
      refine ⟨nofun, fun f mem => ?_⟩
      rw [List.mem_singleton.mp mem]
  · rw [measureRuleIdle active]
    exact ⟨nofun, nofun⟩

end Parts

section Selected
variable {c : Compilers} {g h : Registry} {e e' : Engine} {keep : String → Bool}

theorem buildSelected (built : Engine.build c g = .ok e)
    (fewer : h.enabledRules = g.enabledRules.filter fun r => keep r.name) :
    ∃ e', Engine.build c h = .ok e' := by
  have entries : List.Forall₂ (Paired c) h.enabledRules
      (e.active.filter fun entry => keep entry.1.name) := by
    rw [fewer]
    refine List.rel_filter (fun r entry own => ?_) (activePaired built)
    simp only [own.1]
  have compiled : List.Forall₂ (fun r x => CompiledRule.compile c r = .ok x) h.enabledRules
      ((e.active.filter fun entry => keep entry.1.name).map Prod.snd) :=
    List.forall₂_map_right_iff.mpr (entries.imp fun r entry own => own.2)
  exact ⟨⟨h, _⟩, buildOk.mpr ⟨rfl, compiled⟩⟩

theorem scanSelected (built : Engine.build c g = .ok e) (built' : Engine.build c h = .ok e')
    (fewer : h.enabledRules = g.enabledRules.filter fun r => keep r.name)
    (overrides : h.overrides = g.overrides) (signs : ∀ r ∈ g.enabledRules, r.hooks.Signs)
    (file : SourceFile) :
    (e'.scan file).results = (e.scan file).results.filter (fun f => keep f.rule) ∧
    (e'.scan file).faults = (e.scan file).faults.filter (fun f => keep f.rule) := by
  have parts : e'.scanParts file = (e.scanParts file).filter fun p => keep p.1 := by
    rw [scanPartsOwn built, scanPartsOwn built', fewer, scanRuleOverrides overrides,
      List.filter_map]
    rfl
  have bears : ∀ p ∈ e.scanParts file, p.2.Bears Finding.rule p.1 := by
    intro p mem
    rw [scanPartsOwn built] at mem
    obtain ⟨r, enabled, rfl⟩ := List.mem_map.mp mem
    exact scanRuleBears (signs r enabled)
  rw [Engine.scanJoined, Engine.scanJoined, parts, joinedSelected bears]
  exact ⟨rfl, rfl⟩

theorem measureSelected (built : Engine.build c g = .ok e) (built' : Engine.build c h = .ok e')
    (fewer : h.enabledRules = g.enabledRules.filter fun r => keep r.name) (file : SourceFile) :
    (e'.measure file).measurements =
      (e.measure file).measurements.filter (fun m => keep m.rule) ∧
    (e'.measure file).faults = (e.measure file).faults.filter (fun f => keep f.rule) := by
  have parts : e'.measureParts file = (e.measureParts file).filter fun p => keep p.1 := by
    rw [measurePartsOwn built, measurePartsOwn built', fewer, List.filter_map]
    rfl
  have bears : ∀ p ∈ e.measureParts file, p.2.Bears Measurement.rule p.1 := by
    intro p mem
    rw [measurePartsOwn built] at mem
    obtain ⟨r, _, rfl⟩ := List.mem_map.mp mem
    exact measureRuleBears
  rw [Engine.measureJoined, Engine.measureJoined, parts, joinedSelected bears]
  exact ⟨rfl, rfl⟩

end Selected

def Config.unrestricted (c : Config) : Config :=
  { c with rules := { c.rules with enabled := [], disabled := [] } }

theorem enabledUnrestricted (g : Registry) (c : Config) :
    (g.configure c.unrestricted.rules).enabledRules = (g.configure c.rules).rules := by
  have rules : (g.configure c.unrestricted.rules).rules = (g.configure c.rules).rules :=
    g.configureRules c.rules c.unrestricted.rules rfl rfl
  rw [Registry.enabledConfigure, rules]
  apply List.filter_eq_self.mpr
  intro r _
  simp [RulesConfig.Permits, Config.unrestricted]

theorem listsOnlySelect {compilers : Compilers} {c : Config} {e : Engine}
    (built : Engine.ofConfig compilers c.unrestricted = .ok e) :
    ∃ e', Engine.ofConfig compilers c = .ok e' ∧ ∀ file,
      (e'.scan file).results = (e.scan file).results.filter (fun f => c.rules.Permits f.rule) ∧
      (e'.scan file).faults = (e.scan file).faults.filter (fun f => c.rules.Permits f.rule) ∧
      (e'.measure file).measurements =
        (e.measure file).measurements.filter (fun m => c.rules.Permits m.rule) ∧
      (e'.measure file).faults = (e.measure file).faults.filter (fun f => c.rules.Permits f.rule) := by
  let keep : String → Bool := fun name => c.rules.Permits name
  have all := enabledUnrestricted Registry.builtin c
  have fewer : (Registry.builtin.configure c.rules).enabledRules =
      (Registry.builtin.configure c.unrestricted.rules).enabledRules.filter
        fun r => keep r.name := by
    rw [all, Registry.enabledConfigure]
  have overrides : (Registry.builtin.configure c.rules).overrides =
      (Registry.builtin.configure c.unrestricted.rules).overrides := by
    rw [(Registry.configureLists _ _).2.2, (Registry.configureLists _ _).2.2]
    rfl
  have signs : ∀ r ∈ (Registry.builtin.configure c.unrestricted.rules).enabledRules,
      r.hooks.Signs := by
    intro r enabled
    exact signsConfigure (fun s old => signsBuiltin old) c.rules (all ▸ enabled)
  obtain ⟨e', built'⟩ := buildSelected built fewer
  refine ⟨e', built', fun file => ?_⟩
  obtain ⟨results, faults⟩ := scanSelected built built' fewer overrides signs file
  obtain ⟨measurements, others⟩ := measureSelected built built' fewer file
  exact ⟨results, faults, measurements, others⟩

theorem listsOnlySelectOthers :
    let compilers : Compilers :=
      ⟨fun _ _ => .ok fun _ => ⟨1, ["target"], fun _ => [], fun root => [⟨"target", root⟩]⟩,
        fun _ => .ok fun _ => true⟩
    let c : Config :=
      { rules :=
          { enabled := ["own", "no-print", "definition-counts"]
            disabled := ["no-print"]
            custom := [{ name := "own", language := .python }] } }
    let row : Row := ⟨none, "module", true, false, false, false, 0, 1, none⟩
    let file : SourceFile := ⟨"a.py", .python, ⟨"x", #[row], [], by decide⟩⟩
    ∃ e e', Engine.ofConfig compilers c.unrestricted = .ok e ∧
      Engine.ofConfig compilers c = .ok e' ∧
      (e.scan file).results.map Finding.rule = ["no-print", "todo-comment", "own"] ∧
      (e'.scan file).results.map Finding.rule = ["own"] ∧
      (e.measure file).measurements.map Measurement.rule =
        ["statement-counts", "definition-counts"] ∧
      (e'.measure file).measurements.map Measurement.rule = ["definition-counts"] := by
  intro compilers c row file
  obtain ⟨e, built⟩ : ∃ e, Engine.ofConfig compilers c.unrestricted = .ok e := ⟨_, rfl⟩
  obtain ⟨e', built', same⟩ := listsOnlySelect built
  obtain ⟨results, _, measurements, _⟩ := same file
  refine ⟨e, e', built, built', ?_⟩
  rw [results, measurements]
  cases built
  decide +kernel

end SyntaxAudit
