import SyntaxAudit.Proofs.Engine.Parts

/-! Every rule runs with what it declares. An engine pairs a rule with its own compilation. In a
file that the rule covers, its query is the one compiled for the language of that very file, and it
looks at the whole root or at what a pattern finds only if it declares no query. -/
namespace SyntaxAudit
open Sequence

inductive Aim where
  | query (own : CompiledQuery) (accepts : Option (String → Bool))
  | pattern (accepts : String → Bool)
  | root

inductive Aims (c : Compilers) (m : Metadata) (language : Language) : Aim → Prop where
  | query {source own} (declared : m.query = some source)
      (compiled : c.query language source = .ok own) (plain : m.regex = none) :
      Aims c m language (.query own none)
  | filtered {source own pattern accepts} (declared : m.query = some source)
      (compiled : c.query language source = .ok own) (kept : m.regex = some pattern)
      (read : c.regex pattern = .ok accepts) : Aims c m language (.query own (some accepts))
  | pattern {pattern accepts} (without : m.query = none) (kept : m.regex = some pattern)
      (read : c.regex pattern = .ok accepts) : Aims c m language (.pattern accepts)
  | root (without : m.query = none) (plain : m.regex = none) : Aims c m language .root

namespace Aim

def nodes (aim : Aim) (r : Rule) {file : SourceFile} (root : Node file.tree) :
    Outcome (List (Node file.tree)) :=
  match aim with
  | .query own accepts => do
      let found ← r.validateQuery (own file.tree) root none .all
      .ok (found.filter fun n => accepts.all fun test => test n.text)
  | .pattern accepts => .ok (Node.innermost accepts root)
  | .root => .ok [root]

def handed (aim : Aim) (r : Rule) (file : SourceFile) : Outcome (List (Node file.tree)) := do
  let first ← r.preFilter file.tree.root
  let root ← r.validateRoot first
  aim.nodes r root

def findings (aim : Aim) (r : Rule) (file : SourceFile) : Outcome (List Finding) := do
  let nodes ← aim.handed r file
  let together ← r.validateNodes nodes
  let each ← nodes.mapM r.validateNode
  .ok (together ++ each.flatten)

def measured (aim : Aim) (r : Rule) (file : SourceFile) : Outcome (Groups (Node file.tree)) := do
  let nodes ← aim.handed r file
  r.measureNodes nodes

end Aim

structure RunsOwn (c : Compilers) (file : SourceFile) (r : Rule) (entry : Rule × CompiledRule) :
    Prop where
  paired : entry.1 = r
  compiled : CompiledRule.compile c r = .ok entry.2
  aimed : r.metadata.language.covers file.language = true →
    ∃ aim, Aims c r.metadata file.language aim ∧
      findings r entry.2 file = aim.findings r file ∧
      measured r entry.2 file = aim.measured r file

def Adds {α β : Type} (r : Rule) (file : SourceFile) (outcome : Outcome α) (results : α → List β)
    (part : Contribution β) : Prop :=
  match outcome with
  | .ok found => part = ⟨results found, []⟩
  | .error failure => part = ⟨[], [⟨r.name, file.name, failure.text⟩]⟩

structure ScansOwn (c : Compilers) (g : Registry) (file : SourceFile) (r : Rule)
    (part : Contribution Finding) : Prop where
  skipped : ¬ Applies r file → part = {}
  aimed : Applies r file → ∃ aim, Aims c r.metadata file.language aim ∧
    Adds r file (aim.findings r file) (List.map (completed (g.override? r.name) file)) part

structure MeasuresOwn (c : Compilers) (file : SourceFile) (r : Rule)
    (part : Contribution (Measurement file.tree)) : Prop where
  skipped : ¬ Measures r file → part = {}
  aimed : Measures r file → ∃ aim, Aims c r.metadata file.language aim ∧
    Adds r file (aim.measured r file) (fun groups => [⟨r.name, groups⟩]) part

section Compiled
variable {c : Compilers} {r : Rule} {compiled : CompiledRule} {language : Language}

theorem compileOk (ok : CompiledRule.compile c r = .ok compiled) :
    CompiledRule.compileQueries c r = .ok compiled.queries ∧
      CompiledRule.compileRegex c r = .ok compiled.regex := by
  obtain ⟨queries, first, ok⟩ := bindOk.mp ok
  obtain ⟨regex, second, last⟩ := bindOk.mp ok
  cases last
  exact ⟨first, second⟩

theorem compileForOk {source : String} {dialect : Language} {entry : Language × CompiledQuery}
    (ok : CompiledRule.compileFor c r source dialect = .ok entry) :
    entry.1 = dialect ∧ c.query dialect source = .ok entry.2 := by
  unfold CompiledRule.compileFor at ok
  cases outcome : c.query dialect source with
  | error cause => simp [outcome] at ok
  | ok query =>
    simp only [outcome] at ok
    cases ok
    exact ⟨rfl, rfl⟩

theorem dialectOwn {source : String} {dialects : List Language}
    {queries : List (Language × CompiledQuery)}
    (all : List.Forall₂ (fun d q => CompiledRule.compileFor c r source d = .ok q) dialects queries)
    (covered : language ∈ dialects) :
    ∃ own, c.query language source = .ok own ∧ queries.lookup language = some own := by
  induction all with
  | nil => cases covered
  | @cons dialect entry dialects queries head tail ih =>
    obtain ⟨d, q⟩ := entry
    obtain ⟨rfl, own⟩ := compileForOk head
    by_cases here : language = d
    · subst here
      exact ⟨q, own, List.lookup_cons_self⟩
    · obtain ⟨own, compiled, found⟩ := ih (List.mem_of_ne_of_mem here covered)
      have test : (language == d) = false := beq_eq_false_iff_ne.mpr here
      exact ⟨own, compiled, by simpa only [List.lookup_cons, test] using found⟩

theorem queryOwn {source : String} (ok : CompiledRule.compile c r = .ok compiled)
    (covered : r.metadata.language.covers language = true)
    (declared : r.metadata.query = some source) :
    ∃ own, c.query language source = .ok own ∧ compiled.queryFor? language = some own := by
  have queries := (compileOk ok).1
  simp only [CompiledRule.compileQueries, declared] at queries
  exact dialectOwn (mapMOk.mp queries) (List.contains_iff_mem.mp covered)

theorem queryNone (ok : CompiledRule.compile c r = .ok compiled)
    (without : r.metadata.query = none) : compiled.queryFor? language = none := by
  have queries := (compileOk ok).1
  simp only [CompiledRule.compileQueries, without] at queries
  rw [CompiledRule.queryFor?, ← Except.ok.inj queries]
  rfl

theorem regexOwn {pattern : String} (ok : CompiledRule.compile c r = .ok compiled)
    (kept : r.metadata.regex = some pattern) :
    ∃ accepts, c.regex pattern = .ok accepts ∧ compiled.regex = some accepts := by
  have regex := (compileOk ok).2
  simp only [CompiledRule.compileRegex, kept] at regex
  cases outcome : c.regex pattern with
  | error cause => simp [outcome] at regex
  | ok accepts =>
    simp only [outcome] at regex
    exact ⟨accepts, rfl, (Except.ok.inj regex).symm⟩

theorem regexNone (ok : CompiledRule.compile c r = .ok compiled)
    (plain : r.metadata.regex = none) : compiled.regex = none := by
  have regex := (compileOk ok).2
  simp only [CompiledRule.compileRegex, plain] at regex
  exact (Except.ok.inj regex).symm

end Compiled

section Handed
variable {c : Compilers} {r : Rule} {compiled : CompiledRule} {file : SourceFile}

theorem keepAcceptedEq {t : Tree} (regex : Option (String → Bool)) (nodes : List (Node t)) :
    keepAccepted regex nodes = nodes.filter fun n => regex.all fun test => test n.text := by
  cases regex with
  | some accepts => rfl
  | none => exact (List.filter_eq_self.mpr fun _ _ => rfl).symm

theorem handedEq {aim : Aim} (same : ∀ root, candidatesFrom r compiled file root = aim.nodes r root) :
    candidates r compiled file = aim.handed r file := by
  rw [candidatesEq, funext same]
  rfl

theorem candidatesOwn (ok : CompiledRule.compile c r = .ok compiled)
    (covered : r.metadata.language.covers file.language = true) :
    ∃ aim, Aims c r.metadata file.language aim ∧
      candidates r compiled file = aim.handed r file := by
  cases declared : r.metadata.query with
  | some source =>
    obtain ⟨own, query, entry⟩ := queryOwn ok covered declared
    cases kept : r.metadata.regex with
    | some pattern =>
      obtain ⟨accepts, read, regex⟩ := regexOwn ok kept
      refine ⟨_, .filtered declared query kept read, handedEq fun root => ?_⟩
      simp only [candidatesFrom, entry, regex, keepAcceptedEq]
      rfl
    | none =>
      have regex := regexNone ok kept
      refine ⟨_, .query declared query kept, handedEq fun root => ?_⟩
      simp only [candidatesFrom, entry, regex, keepAcceptedEq]
      rfl
  | none =>
    have entry : compiled.queryFor? file.language = none := queryNone ok declared
    cases kept : r.metadata.regex with
    | some pattern =>
      obtain ⟨accepts, read, regex⟩ := regexOwn ok kept
      refine ⟨_, .pattern declared kept read, handedEq fun root => ?_⟩
      simp only [candidatesFrom, entry, regex]
      rfl
    | none =>
      have regex := regexNone ok kept
      refine ⟨_, .root declared kept, handedEq fun root => ?_⟩
      simp only [candidatesFrom, entry, regex]
      rfl

end Handed

section Runs
variable {c : Compilers} {r : Rule} {compiled : CompiledRule}

theorem aimOwn (ok : CompiledRule.compile c r = .ok compiled) {file : SourceFile}
    (covered : r.metadata.language.covers file.language = true) :
    ∃ aim, Aims c r.metadata file.language aim ∧
      findings r compiled file = aim.findings r file ∧
      measured r compiled file = aim.measured r file := by
  obtain ⟨aim, declared, same⟩ := candidatesOwn ok covered
  exact ⟨aim, declared, by rw [findings, same]; rfl, by rw [measured, same]; rfl⟩

theorem scanRuleOwn (g : Registry) (file : SourceFile) (ok : CompiledRule.compile c r = .ok compiled) :
    ScansOwn c g file r (scanRule g file r compiled) := by
  refine ⟨scanRuleIdle, fun applies => ?_⟩
  obtain ⟨aim, declared, found, _⟩ := aimOwn ok applies.2
  refine ⟨aim, declared, ?_⟩
  rw [← found]
  cases outcome : findings r compiled file with
  | ok all => exact scanRuleOk applies outcome
  | error failure => exact scanRuleError applies outcome

theorem measureRuleOwn (file : SourceFile) (ok : CompiledRule.compile c r = .ok compiled) :
    MeasuresOwn c file r (measureRule file r compiled) := by
  refine ⟨measureRuleIdle, fun active => ?_⟩
  obtain ⟨aim, declared, _, counted⟩ := aimOwn ok active.2
  refine ⟨aim, declared, ?_⟩
  rw [← counted]
  cases outcome : measured r compiled file with
  | ok groups => exact measureRuleOk active outcome
  | error failure => exact measureRuleError active outcome

end Runs

theorem rulesRunOwnQueries {c : Compilers} {g : Registry} {e : Engine}
    (built : Engine.build c g = .ok e) (file : SourceFile) :
    List.Forall₂ (RunsOwn c file) g.enabledRules e.active ∧
    (∃ parts, List.Forall₂ (ScansOwn c g file) g.enabledRules parts ∧
      e.scan file = ⟨file.name, parts.flatMap Contribution.results,
        parts.flatMap Contribution.faults⟩) ∧
    ∃ parts, List.Forall₂ (MeasuresOwn c file) g.enabledRules parts ∧
      e.measure file = ⟨file.name, parts.flatMap Contribution.results,
        parts.flatMap Contribution.faults⟩ := by
  have own : ∀ r ∈ g.enabledRules, CompiledRule.compile c r = .ok (CompiledRule.own c r) :=
    fun r enabled => ownCompiled built enabled
  refine ⟨(activePaired built).imp fun r entry paired => ⟨paired.1, paired.2, aimOwn paired.2⟩,
    ⟨g.enabledRules.map fun r => scanRule g file r (CompiledRule.own c r), ?_, ?_⟩,
    ⟨g.enabledRules.map fun r => measureRule file r (CompiledRule.own c r), ?_, ?_⟩⟩
  · rw [List.forall₂_map_right_iff, List.forall₂_same]
    exact fun r enabled => scanRuleOwn g file (own r enabled)
  · rw [scanOwn built, List.flatMap_map, List.flatMap_map]
  · rw [List.forall₂_map_right_iff, List.forall₂_same]
    exact fun r enabled => measureRuleOwn file (own r enabled)
  · rw [measureOwn built, List.flatMap_map, List.flatMap_map]

/- The rules that run stand behind one that does not, and the file is in a dialect of their language.
A query captures the children of one kind, or all of them; a pattern is a character to be found. -/
theorem rulesRunOwnQueriesDialect :
    let compilers : Compilers :=
      ⟨fun language source => .ok fun _ => ⟨1, ["target"], fun _ => [], fun root =>
        if language = .tsx then
          ((Node.children root).filter fun n => source = "_" || n.kind = source).map fun n =>
            ⟨"target", n⟩
        else []⟩, fun pattern => .ok fun text => pattern.toList.all text.toList.contains⟩
    let idle : Rule := Rule.declared { name := "idle", context := ⟨true, true⟩, language := .tsx }
    let typed : Rule := Rule.declared
      { name := "typed", context := .scanning, language := .typescript, query := some "number" }
    let counted : Rule := Rule.declared
      { name := "counted", context := .measuring, language := .typescript, query := some "string" }
    let kept : Rule := Rule.declared
      { name := "kept", context := .scanning, language := .typescript, query := some "_"
        regex := some "'" }
    let matched : Rule := Rule.declared
      { name := "matched", context := .scanning, language := .tsx, regex := some "1" }
    let g : Registry := { rules := [idle, typed, counted, kept, matched], disabled := ["idle"] }
    let row (parent : Option Nat) (kind : String) (start stop : Nat) : Row :=
      ⟨parent, kind, true, false, false, false, start, stop, none⟩
    let tree : Tree := ⟨"1\n''", #[row none "program" 0 4, row (some 0) "number" 0 1,
      row (some 0) "string" 2 4], [], by decide⟩
    let file : SourceFile := ⟨"a.tsx", .tsx, tree⟩
    ∃ e, Engine.build compilers g = .ok e ∧
      (e.scan file).results.map (fun f => (f.rule, f.node.kind)) =
        [("typed", "number"), ("kept", "string"), ("matched", "number")] ∧
      (e.measure file).measurements.map (fun m => (m.rule, m.groups.counts)) =
        [("counted", [("string", 1)])] ∧
      List.Forall₂ (RunsOwn compilers file) [typed, counted, kept, matched] e.active ∧
      (∃ own, Aims compilers counted.metadata .tsx (.query own none)) ∧
      (∃ own accepts, Aims compilers kept.metadata .tsx (.query own (some accepts))) ∧
      ∃ accepts, Aims compilers matched.metadata .tsx (.pattern accepts) := by
  intro compilers idle typed counted kept matched g row tree file
  obtain ⟨e, built⟩ : ∃ e, Engine.build compilers g = .ok e := ⟨_, rfl⟩
  refine ⟨e, built, ?_, ?_, (rulesRunOwnQueries built file).1, ⟨_, .query rfl rfl rfl⟩,
    ⟨_, _, .filtered rfl rfl rfl rfl⟩, _, .pattern rfl rfl rfl⟩
  · cases built
    decide +kernel
  · cases built
    decide +kernel

end SyntaxAudit
