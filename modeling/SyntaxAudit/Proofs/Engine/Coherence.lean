import SyntaxAudit.Proofs.Engine.Authorship
import SyntaxAudit.Proofs.Engine.Parts
import SyntaxAudit.Proofs.Registry.DistinctNames
import SyntaxAudit.Proofs.Tree.Extent

/-! Reports agree with the registry that they come from. A finding names one rule, which runs and
takes part in the scan of the file. It has the rank that the registry gives to this rule, whether by
an override or by default, and it shows one of the nodes that this rule was handed. -/
namespace SyntaxAudit

structure Reported (e : Engine) (file : SourceFile) (r : Rule) (f : Finding) : Prop where
  filed : f.file = some (e.scan file).file
  rule : e.registry.get? f.rule = some r
  enabled : r ∈ e.registry.enabledRules
  applies : Applies r file
  priority : f.priority = e.registry.priorityOf r
  severity : f.severity = (e.registry.priorityOf r).severity
  node : ∃ compiled nodes n, (r, compiled) ∈ e.active ∧ candidates r compiled file = .ok nodes ∧
    n ∈ nodes ∧ f.node.Shows n

section Rule
variable {g : Registry} {file : SourceFile} {r : Rule} {compiled : CompiledRule}

theorem findingsMade (faithful : r.hooks.Faithful) {found : List Finding}
    (ok : findings r compiled file = .ok found) :
    ∃ nodes, candidates r compiled file = .ok nodes ∧
      ∀ f ∈ found, ∃ n ∈ nodes, f.MadeBy r.toProfile n := by
  obtain ⟨nodes, together, each, chosen, all, single, rfl⟩ := findingsOk.mp ok
  refine ⟨nodes, candidatesComplete chosen, fun f mem => ?_⟩
  rcases List.mem_append.mp mem with first | later
  · exact faithful.together _ _ nodes together all f first
  · obtain ⟨out, inside, last⟩ := List.mem_flatten.mp later
    obtain ⟨n, handed, answer⟩ := Sequence.answerOf single inside
    obtain ⟨m, same, made⟩ := faithful.single _ _ n out answer f last
    rw [List.mem_singleton.mp same] at made
    exact ⟨n, handed, made⟩

theorem scanRuleMade (faithful : r.hooks.Faithful) {f : Finding}
    (mem : f ∈ (scanRule g file r compiled).results) :
    Applies r file ∧ ∃ nodes, candidates r compiled file = .ok nodes ∧
      ∃ n ∈ nodes, ∃ own : Finding, own.MadeBy r.toProfile n ∧
        f = completed (g.override? r.name) file own := by
  by_cases applies : Applies r file
  · cases outcome : findings r compiled file with
    | ok found =>
      rw [scanRuleOk applies outcome] at mem
      obtain ⟨own, inside, same⟩ := List.mem_map.mp mem
      obtain ⟨nodes, chosen, all⟩ := findingsMade faithful outcome
      obtain ⟨n, handed, made⟩ := all own inside
      exact ⟨applies, nodes, chosen, n, handed, own, made, same.symm⟩
    | error e =>
      rw [scanRuleError applies outcome] at mem
      cases mem
  · rw [scanRuleIdle applies] at mem
    cases mem

/- The host ranks a finding by the override alone and the registry ranks the rule by the override or
by what the rule declares. The two agree because the finding came with what the rule declares. -/
theorem completedMade {n : Node file.tree} {own : Finding} (made : own.MadeBy r.toProfile n) :
    let f := completed (g.override? r.name) file own
    f.rule = r.name ∧ f.priority = g.priorityOf r ∧ f.severity = (g.priorityOf r).severity ∧
      f.node = n.snapshot ∧ f.file = some file.name := by
  unfold completed Registry.priorityOf
  cases g.override? r.name with
  | none =>
    exact ⟨made.rule, made.priority, made.severity, made.node, by simp [made.file]⟩
  | some p =>
    exact ⟨made.rule, rfl, rfl, made.node, by simp [Finding.withPriority, made.file]⟩

end Rule

theorem scanReported {c : Compilers} {g : Registry} {e : Engine}
    (built : Engine.build c g = .ok e) (distinct : (Rules.names g.rules).Nodup)
    (faithful : ∀ r ∈ g.rules, r.hooks.Faithful) (file : SourceFile) {f : Finding}
    (mem : f ∈ (e.scan file).results) : ∃ r, Reported e file r f := by
  have registry : e.registry = g := (buildOk.mp built).1
  rw [scanOwn built] at mem
  obtain ⟨r, enabled, inside⟩ := List.mem_flatMap.mp mem
  have listed : r ∈ g.rules := (List.mem_filter.mp enabled).1
  obtain ⟨applies, nodes, chosen, n, handed, own, made, rfl⟩ :=
    scanRuleMade (faithful r listed) inside
  obtain ⟨rule, priority, severity, node, name⟩ := completedMade (g := g) made
  have active : (r, CompiledRule.own c r) ∈ e.active := by
    rw [activeOwn built]
    exact List.mem_map_of_mem enabled
  refine ⟨r, name, ?_, registry ▸ enabled, applies, registry ▸ priority, registry ▸ severity,
    CompiledRule.own c r, nodes, n, active, chosen, handed, node ▸ n.snapshotShows⟩
  rw [registry, rule]
  exact Rules.namedDistinct distinct listed

theorem resultsCohere {compilers : Compilers} {c : Config} {e : Engine}
    (built : Engine.ofConfig compilers c = .ok e) (file : SourceFile) :
    ∀ f ∈ (e.scan file).results, ∃ r, Reported e file r f := by
  have distinct : (Rules.names (Registry.builtin.configure c.rules).rules).Nodup :=
    Registry.distinctStep (a := .configure c.rules) rfl Registry.distinctBuiltin
  intro f mem
  exact scanReported built distinct (fun r listed => faithfulConfigured c.rules listed) file mem

theorem resultsCohereOverridden :
    let compilers : Compilers :=
      ⟨fun _ _ => .ok fun _ => ⟨1, ["target"], fun _ => [], fun root =>
        (Node.children root).map fun n => ⟨"target", n⟩⟩, fun _ => .ok fun _ => true⟩
    let c : Config :=
      { rules :=
          { priority := [("no-print", .medium), ("own", ⟨7⟩)]
            custom := [{ name := "own", language := .python }] } }
    let row (parent : Option Nat) (kind : String) (start stop : Nat) : Row :=
      ⟨parent, kind, true, false, false, false, start, stop, none⟩
    let file : SourceFile := ⟨"a.py", .python,
      ⟨"x\n é = ab\n", #[row none "module" 0 11, row (some 0) "identifier" 8 10], [], by decide⟩⟩
    let whole : Snapshot := ⟨"module", 0, 11, ⟨1, 1⟩, ⟨3, 1⟩, "x\n é = ab\n"⟩
    let part : Snapshot := ⟨"identifier", 8, 10, ⟨2, 7⟩, ⟨2, 9⟩, "ab"⟩
    ∃ e, Engine.ofConfig compilers c = .ok e ∧
      (e.scan file).results.map (fun f => (f.rule, f.priority.rank, f.severity, f.node)) =
        [("no-print", 1, .warning, part), ("todo-comment", 0, .info, part),
          ("own", 7, .error, whole)] ∧
      ∀ f ∈ (e.scan file).results, ∃ r, Reported e file r f := by
  intro compilers c row file whole part
  obtain ⟨e, built⟩ : ∃ e, Engine.ofConfig compilers c = .ok e := ⟨_, rfl⟩
  refine ⟨e, built, ?_, resultsCohere built file⟩
  cases built
  decide +kernel

end SyntaxAudit
