import SyntaxAudit.Proofs.Engine.Coherence
import SyntaxAudit.Proofs.Engine.Division
import SyntaxAudit.Proofs.Engine.OwnQuery

/-! What one rule has in a report, whatever it is set to and whichever rules run beside it. A rule
that has a query and looks at its nodes one by one reports on each of them in their order. -/
namespace SyntaxAudit
open Sequence

def Rule.under (r : Rule) (settings : Settings) : Rule := { r with settings }

def Rule.reports (r : Rule) {t : Tree} (n : Node t) : List Finding :=
  (r.validateNode n).toOption.getD []

structure OwnReport (c : Compilers) (g : Registry) (before : List Rule) (r : Rule)
    (after : List Rule) (file : SourceFile) (own : ScanReport) : Prop where
  joined : ∃ e ahead alone behind, BuiltOf c g (before ++ r :: after) e ∧ BuiltOf c g before ahead ∧
    BuiltOf c g [r] alone ∧ BuiltOf c g after behind ∧ alone.scan file = own ∧
    Joins [ahead.scan file, own, behind.scan file] (e.scan file)

structure Finding.FiledBy (g : Registry) (r : Rule) (file : SourceFile) (n : Node file.tree)
    (f : Finding) : Prop where
  rule : f.rule = r.name
  priority : f.priority = g.priorityOf r
  severity : f.severity = (g.priorityOf r).severity
  node : f.node = n.snapshot
  file : f.file = some file.name

structure Rule.Singly (r : Rule) (source : String) : Prop where
  filtered : ∀ {t} (root : Node t), r.preFilter root = .ok root
  validated : ∀ {t} (root : Node t), r.validateRoot root = .ok root
  query : r.metadata.query = some source
  plain : r.metadata.regex = none
  together : ∀ {t} (nodes : List (Node t)), r.validateNodes nodes = .ok []
  each : ∀ {t} (n : Node t), r.validateNode n = .ok (r.reports n)

section Own
variable {c : Compilers} {g : Registry} {before after : List Rule} {r : Rule} {file : SourceFile}

theorem builtUnder {e : Engine} (built : BuiltOf c g (before ++ r :: after) e) (s : Settings) :
    ∃ e', BuiltOf c g (before ++ r.under s :: after) e' := by
  have all := buildTotal.mp ⟨e, built⟩
  refine buildTotal.mpr fun x mem runs => ?_
  have place : x ∈ before ++ r.under s :: after := mem
  rcases List.mem_append.mp place with ahead | here
  · exact all x (List.mem_append_left _ ahead) runs
  · rcases List.mem_cons.mp here with rfl | behind
    · have own := all r (List.mem_append_right _ List.mem_cons_self) runs
      exact ⟨own.query, own.pattern⟩
    · exact all x (List.mem_append_right _ (List.mem_cons_of_mem _ behind)) runs

theorem ownReport {e : Engine} (built : BuiltOf c g (before ++ r :: after) e) (runs : g.Runs r)
    (file : SourceFile) :
    ∃ compiled, CompiledRule.compile c r = .ok compiled ∧
      OwnReport c g before r after file ((scanRule g file r compiled).report file) := by
  have rules : (g.only (before ++ r :: after)).rules = before ++ r :: after := rfl
  obtain ⟨ahead, alone, behind, first, middle, last⟩ := buildAround built rules
  have joins := (reportsAround built rules first middle last file).1
  have scan : alone.scan file = (scanRule g file r (CompiledRule.own c r)).report file :=
    (reportsAlone middle runs file).1
  refine ⟨CompiledRule.own c r, compiledAlone middle runs, ⟨e, ahead, alone, behind, built, first,
    middle, last, scan, ?_⟩⟩
  rwa [← scan]

section Singly
variable {source : String} {query : CompiledQuery} {nodes : List (Node file.tree)}

theorem chosenSingly {compiled : CompiledRule} (singly : r.Singly source)
    (covered : r.metadata.language.covers file.language = true)
    (own : CompiledRule.compile c r = .ok compiled)
    (outcome : c.query file.language source = .ok query)
    (found : r.validateQuery (query file.tree) file.tree.root none .all = .ok nodes) :
    Chosen r compiled file nodes := by
  obtain ⟨query', outcome', entry⟩ := queryOwn own covered singly.query
  have same : query' = query := Except.ok.inj (outcome'.symm.trans outcome)
  subst same
  have root : ChosenRoot r file file.tree.root := ⟨_, singly.filtered _, singly.validated _⟩
  have chosen : Chosen r compiled file (keepAccepted compiled.regex nodes) :=
    .resolved root entry found
  rwa [regexNone own singly.plain] at chosen

theorem reportSingly {e : Engine} (singly : r.Singly source)
    (built : BuiltOf c g (before ++ r :: after) e) (runs : g.Runs r)
    (applies : Applies r file) (outcome : c.query file.language source = .ok query)
    (found : r.validateQuery (query file.tree) file.tree.root none .all = .ok nodes) :
    OwnReport c g before r after file
      ⟨file.name, (nodes.flatMap r.reports).map (completed (g.override? r.name) file), []⟩ := by
  obtain ⟨compiled, own, joined⟩ := ownReport built runs file
  have chosen := chosenSingly singly applies.2 own outcome found
  rwa [scanRuleOk applies (findingsEach chosen (singly.together nodes) singly.each)] at joined

theorem reportIdle {e : Engine} (built : BuiltOf c g (before ++ r :: after) e) (runs : g.Runs r)
    (idle : ¬ Applies r file) : OwnReport c g before r after file ⟨file.name, [], []⟩ := by
  obtain ⟨compiled, own, joined⟩ := ownReport built runs file
  rwa [scanRuleIdle idle] at joined

end Singly

theorem filedCompleted {n : Node file.tree} {own : Finding} (made : own.MadeBy r.toProfile n) :
    (completed (g.override? r.name) file own).FiledBy g r file n := by
  obtain ⟨rule, priority, severity, node, name⟩ := completedMade (g := g) made
  exact ⟨rule, priority, severity, node, name⟩

theorem filedUnder {s : Settings} {n : Node file.tree} {f : Finding}
    (filed : f.FiledBy g (r.under s) file n) : f.FiledBy g r file n :=
  ⟨filed.rule, filed.priority, filed.severity, filed.node, filed.file⟩

end Own

theorem reportsKept {α β γ : Type} {keep : α → Bool} {report : α → List β} {f : β → γ}
    {Reports : α → γ → Prop} (idle : ∀ n, keep n = false → report n = [])
    (one : ∀ n, keep n = true → ∃ x, report n = [x] ∧ Reports n (f x)) (nodes : List α) :
    List.Forall₂ Reports (nodes.filter keep) ((nodes.flatMap report).map f) := by
  induction nodes with
  | nil => exact .nil
  | cons n rest ih =>
    rw [List.filter_cons, List.flatMap_cons]
    cases kept : keep n with
    | false =>
      rw [idle n kept, List.nil_append]
      exact ih
    | true =>
      obtain ⟨x, own, reports⟩ := one n kept
      rw [own, if_pos rfl]
      exact .cons reports ih

end SyntaxAudit
