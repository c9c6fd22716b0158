import SyntaxAudit.Proofs.Engine.Division
import SyntaxAudit.Proofs.Groups

/-! Scanning and measuring look at the same nodes. A rule without code of its own reports every node
that it chooses in a file and counts each of them once. So its findings, grouped by the kinds of
their nodes, are its measurement, whichever rules run beside it. -/
namespace SyntaxAudit
open Sequence

def Rule.IsDeclared (r : Rule) : Prop := r.hooks = (declared r.metadata).hooks

section Declared
variable {g : Registry} {r : Rule} {compiled : CompiledRule} {file : SourceFile}
  {nodes : List (Node file.tree)}

theorem chosenDeclared (declared : r.IsDeclared) (compiled : CompiledRule) (file : SourceFile) :
    ∃ nodes, Chosen r compiled file nodes := by
  have root : ChosenRoot r file file.tree.root := by
    refine ⟨file.tree.root, ?_, ?_⟩
    · rw [Rule.preFilter, declared]
      rfl
    · rw [Rule.validateRoot, declared]
      rfl
  cases own : compiled.queryFor? file.language with
  | some query =>
    have found : r.validateQuery (query file.tree) file.tree.root none .all =
        .ok ((query file.tree).resolve file.tree.root none .all) := by
      rw [Rule.validateQuery, declared]
      rfl
    exact ⟨_, .resolved root own found⟩
  | none =>
    cases pattern : compiled.regex with
    | some accepts => exact ⟨_, .matching root own pattern⟩
    | none => exact ⟨_, .whole root own pattern⟩

theorem findingsDeclared (declared : r.IsDeclared) (chosen : Chosen r compiled file nodes) :
    findings r compiled file = .ok (nodes.map (Finding.ofRule r.metadata)) := by
  have all : r.validateNodes nodes = .ok [] := by
    rw [Rule.validateNodes, declared]
    rfl
  have single : ∀ n : Node file.tree, r.validateNode n = .ok [Finding.ofRule r.metadata n] := by
    intro n
    rw [Rule.validateNode, declared]
    rfl
  rw [findingsEach chosen all single, ← List.map_eq_flatMap]

theorem measuredDeclared (declared : r.IsDeclared) (chosen : Chosen r compiled file nodes) :
    measured r compiled file = .ok (Groups.ofList nodes) := by
  have counted : r.measureNodes nodes = .ok (Groups.ofList nodes) := by
    rw [Rule.measureNodes, declared]
    rfl
  exact bindOk.mpr ⟨nodes, candidatesComplete chosen, counted⟩

theorem completedNode (override : Option Priority) (file : SourceFile) (f : Finding) :
    (completed override file f).node = f.node := by
  cases override <;> rfl

theorem snapshotKind {t : Tree} (n : Node t) : Kinded.kind n.snapshot = Kinded.kind n := rfl

theorem scanRuleDeclared (declared : r.IsDeclared) (applies : Applies r file)
    (chosen : Chosen r compiled file nodes) :
    (scanRule g file r compiled).results.map Finding.node = nodes.map Node.snapshot ∧
      (scanRule g file r compiled).faults = [] := by
  rw [scanRuleOk applies (findingsDeclared declared chosen), List.map_map, List.map_map]
  exact ⟨List.map_congr_left fun n _ => completedNode _ file _, rfl⟩

end Declared

theorem scanAgreesWithMeasure {c : Compilers} {g : Registry} {e : Engine}
    (built : Engine.build c g = .ok e) {before after : List Rule} {r : Rule}
    (rules : g.rules = before ++ r :: after) (runs : g.Runs r) (declared : r.IsDeclared)
    (both : r.metadata.context = ⟨true, true⟩) {file : SourceFile}
    (covered : r.metadata.language.covers file.language = true) :
    ∃ ahead own behind compiled nodes groups,
      BuiltOf c g before ahead ∧ BuiltOf c g [r] own ∧ BuiltOf c g after behind ∧
      Joins [ahead.scan file, own.scan file, behind.scan file] (e.scan file) ∧
      MeasureJoins [ahead.measure file, own.measure file, behind.measure file] (e.measure file) ∧
      CompiledRule.compile c r = .ok compiled ∧ Chosen r compiled file nodes ∧
      (own.scan file).results.map Finding.node = nodes.map Node.snapshot ∧
      (own.scan file).faults = [] ∧
      own.measure file = ⟨file.name, [⟨r.name, groups⟩], []⟩ ∧
      Groups.ofList ((own.scan file).results.map Finding.node) = groups.map Node.snapshot ∧
      groups.total = (own.scan file).results.length := by
  obtain ⟨ahead, own, behind, first, middle, last⟩ := buildAround built rules
  obtain ⟨scans, measures⟩ := reportsAround built rules first middle last file
  obtain ⟨scan, measure⟩ := reportsAlone middle runs file
  obtain ⟨nodes, chosen⟩ := chosenDeclared declared (CompiledRule.own c r) file
  have applies : Applies r file := ⟨congrArg Context.scan both, covered⟩
  have active : Measures r file := ⟨congrArg Context.measure both, covered⟩
  obtain ⟨seen, unfailing⟩ : (own.scan file).results.map Finding.node = nodes.map Node.snapshot ∧
      (own.scan file).faults = [] := by
    rw [scan]
    exact scanRuleDeclared declared applies chosen
  rw [measureRuleOk active (measuredDeclared declared chosen)] at measure
  refine ⟨ahead, own, behind, CompiledRule.own c r, nodes, Groups.ofList nodes, first, middle, last,
    scans, measures, compiledAlone middle runs, chosen, seen, unfailing, measure, ?_, ?_⟩
  · rw [seen, Groups.ofListMap snapshotKind]
  · rw [Groups.totalOfList, ← List.length_map Finding.node, seen, List.length_map]

theorem scanAgreesWithMeasureKinds :
    let compilers : Compilers :=
      ⟨fun _ _ => .ok fun t => ⟨1, ["target"], fun _ => [], fun _ =>
        t.nodes.tail.map fun n => ⟨"target", n⟩⟩, fun _ => .error ""⟩
    let broken : Rule :=
      { metadata := { name := "broken", context := ⟨true, true⟩ }
        hooks := { preFilter := fun _ _ _ => .error .unlabelled } }
    let literals : Rule :=
      (Rule.declared { name := "literals", context := ⟨true, true⟩, query := some "(x)" }).set "k" "v"
    let whole : Rule := Rule.declared { name := "whole", context := ⟨true, true⟩ }
    let g : Registry := { rules := [broken, literals, whole] }
    let leaf (kind : String) (start stop : Nat) : Row :=
      ⟨some 0, kind, true, false, false, false, start, stop, none⟩
    let root : Row := ⟨none, "module", true, false, false, false, 0, 3, none⟩
    let file : SourceFile := ⟨"a.py", .python,
      ⟨"1a2", #[root, leaf "integer" 0 1, leaf "string" 1 2, leaf "integer" 2 3], [], by decide⟩⟩
    ∃ e own groups, Engine.build compilers g = .ok e ∧ BuiltOf compilers g [literals] own ∧
      own.measure file = ⟨"a.py", [⟨"literals", groups⟩], []⟩ ∧
      Groups.ofList ((own.scan file).results.map Finding.node) = groups.map Node.snapshot ∧
      (groups.map Node.snapshot).counts = [("integer", 2), ("string", 1)] := by
  intro compilers broken literals whole g leaf root file
  obtain ⟨e, built⟩ : ∃ e, Engine.build compilers g = .ok e := ⟨_, rfl⟩
  have rules : g.rules = [broken] ++ literals :: [whole] := rfl
  have covered : literals.metadata.language.covers file.language = true := rfl
  obtain ⟨_, own, _, _, _, groups, _, middle, _, _, _, _, _, _, _, measure, same, _⟩ :=
    scanAgreesWithMeasure built rules (by decide) rfl rfl covered
  refine ⟨e, own, groups, built, middle, measure, same, ?_⟩
  rw [← same]
  cases middle
  decide +kernel

end SyntaxAudit
