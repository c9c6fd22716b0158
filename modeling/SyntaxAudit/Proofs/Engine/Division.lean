import SyntaxAudit.Proofs.Engine.Construction
import SyntaxAudit.Proofs.Engine.Parts

/-! The rules of a registry in several parts, each with an engine of its own. The engine of all the
rules reports on a file what those of the parts do, one after the other. -/
namespace SyntaxAudit
open Sequence

def Registry.only (g : Registry) (rules : List Rule) : Registry := { g with rules }

def BuiltOf (c : Compilers) (g : Registry) (rules : List Rule) (e : Engine) : Prop :=
  Engine.build c (g.only rules) = .ok e

def MeasureJoins {t : Tree} (reports : List (MeasureReport t)) (report : MeasureReport t) : Prop :=
  report.measurements = reports.flatMap MeasureReport.measurements ∧
  report.faults = reports.flatMap MeasureReport.faults

section Division
variable {c : Compilers} {g : Registry} {e : Engine} {parts : List (List Rule)}
  {engines : List Engine}

theorem buildParts (built : Engine.build c g = .ok e) (whole : g.rules = parts.flatten) :
    ∃ engines, List.Forall₂ (BuiltOf c g) parts engines := by
  have each : ∀ rules ∈ parts, ∃ own, Engine.build c (g.only rules) = .ok own := by
    intro rules part
    -- What runs in a part runs in the whole, which compiles.
    refine buildTotal.mpr fun r mem runs => ?_
    have inside : r ∈ g.rules := whole ▸ List.mem_flatten.mpr ⟨rules, part, mem⟩
    exact buildTotal.mp ⟨e, built⟩ r inside runs
  obtain ⟨engines, all⟩ := mapMTotal.mpr each
  exact ⟨engines, mapMOk.mp all⟩

theorem outputParts {α : Type} {output : Engine → List α} {own : Rule → List α}
    (single : ∀ {rules e}, BuiltOf c g rules e → output e = (g.allowed rules).flatMap own)
    (all : List.Forall₂ (BuiltOf c g) parts engines) :
    (g.allowed parts.flatten).flatMap own = engines.flatMap output := by
  induction all with
  | nil => rfl
  | @cons rules e parts engines head tail ih =>
    have split : g.allowed (rules ++ parts.flatten) = g.allowed rules ++ g.allowed parts.flatten :=
      List.filter_append ..
    rw [List.flatten_cons, split, List.flatMap_append, List.flatMap_cons, ih, single head]

theorem scanInParts (built : Engine.build c g = .ok e) (whole : g.rules = parts.flatten)
    (all : List.Forall₂ (BuiltOf c g) parts engines) (file : SourceFile) :
    Joins (engines.map fun own => own.scan file) (e.scan file) := by
  have enabled : g.enabledRules = g.allowed parts.flatten := congrArg g.allowed whole
  rw [scanOwn built, enabled]
  constructor
  · rw [List.flatMap_map]
    exact outputParts (fun own => congrArg ScanReport.results (scanOwn own file)) all
  · rw [List.flatMap_map]
    exact outputParts (fun own => congrArg ScanReport.faults (scanOwn own file)) all

theorem measureInParts (built : Engine.build c g = .ok e) (whole : g.rules = parts.flatten)
    (all : List.Forall₂ (BuiltOf c g) parts engines) (file : SourceFile) :
    MeasureJoins (engines.map fun own => own.measure file) (e.measure file) := by
  have enabled : g.enabledRules = g.allowed parts.flatten := congrArg g.allowed whole
  rw [measureOwn built, enabled]
  constructor
  · rw [List.flatMap_map]
    exact outputParts (fun own => congrArg MeasureReport.measurements (measureOwn own file)) all
  · rw [List.flatMap_map]
    exact outputParts (fun own => congrArg MeasureReport.faults (measureOwn own file)) all

end Division

section Around
variable {c : Compilers} {g : Registry} {e ahead own behind : Engine} {before after : List Rule}
  {r : Rule}

theorem buildAround (built : Engine.build c g = .ok e) (rules : g.rules = before ++ r :: after) :
    ∃ ahead own behind, BuiltOf c g before ahead ∧ BuiltOf c g [r] own ∧
      BuiltOf c g after behind := by
  have whole : g.rules = [before, [r], after].flatten := by simp [rules]
  obtain ⟨engines, all⟩ := buildParts built whole
  simp only [List.forall₂_cons_left_iff] at all
  obtain ⟨ahead, _, first, ⟨own, _, middle, ⟨behind, _, last, _⟩, _⟩, _⟩ := all
  exact ⟨ahead, own, behind, first, middle, last⟩

theorem reportsAround (built : Engine.build c g = .ok e) (rules : g.rules = before ++ r :: after)
    (first : BuiltOf c g before ahead) (middle : BuiltOf c g [r] own)
    (last : BuiltOf c g after behind) (file : SourceFile) :
    Joins [ahead.scan file, own.scan file, behind.scan file] (e.scan file) ∧
    MeasureJoins [ahead.measure file, own.measure file, behind.measure file] (e.measure file) := by
  have whole : g.rules = [before, [r], after].flatten := by simp [rules]
  have all : List.Forall₂ (BuiltOf c g) [before, [r], after] [ahead, own, behind] :=
    .cons first (.cons middle (.cons last .nil))
  exact ⟨scanInParts built whole all file, measureInParts built whole all file⟩

theorem enabledAlone (runs : g.Runs r) : (g.only [r]).enabledRules = [r] := by
  rw [enabledRuns]
  apply List.filter_eq_self.mpr
  intro s mem
  rw [List.mem_singleton.mp mem]
  exact decide_eq_true runs

theorem reportsAlone (middle : BuiltOf c g [r] own) (runs : g.Runs r) (file : SourceFile) :
    own.scan file = (scanRule g file r (CompiledRule.own c r)).report file ∧
    own.measure file = ⟨file.name, (measureRule file r (CompiledRule.own c r)).results,
      (measureRule file r (CompiledRule.own c r)).faults⟩ := by
  constructor
  · rw [scanOwn middle, enabledAlone runs, List.flatMap_singleton, List.flatMap_singleton]
    rfl
  · rw [measureOwn middle, enabledAlone runs, List.flatMap_singleton, List.flatMap_singleton]

theorem compiledAlone (middle : BuiltOf c g [r] own) (runs : g.Runs r) :
    CompiledRule.compile c r = .ok (CompiledRule.own c r) := by
  apply ownCompiled middle
  rw [enabledAlone runs]
  exact List.mem_singleton_self r

end Around
end SyntaxAudit
