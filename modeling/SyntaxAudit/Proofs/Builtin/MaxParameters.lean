import Mathlib.Algebra.Ring.Nat
import Mathlib.Data.List.Basic
import SyntaxAudit.Proofs.Engine.OwnReport
import SyntaxAudit.Proofs.Engine.Ranking
import SyntaxAudit.Proofs.Resolution
import SyntaxAudit.Proofs.Settings

/-! What is reported of long parameter lists. The limit is the number that the setting denotes, or
five where it denotes none. A list is reported if it has more parameters than that, so a higher limit
never brings a report that a lower one does not. -/
namespace SyntaxAudit.Builtin

inductive ParameterLimit (s : Settings) : Nat → Prop where
  | given {text n} (stored : s.get? "max" = some text) (denotes : Text.Denotes text.toList n)
      (fits : n < 2 ^ 64) : ParameterLimit s n
  | standard
      (without : ∀ text n, s.get? "max" = some text → Text.Denotes text.toList n → 2 ^ 64 ≤ n) :
      ParameterLimit s 5

inductive ParameterLists (c : Compilers) (file : SourceFile) : List (Node file.tree) → Prop where
  | queried {source query} (python : file.language = .python)
      (declared : maxParameters.metadata.query = some source)
      (outcome : c.query .python source = .ok query) :
      ParameterLists c file ((query file.tree).targets file.tree.root)
  | foreign (other : file.language ≠ .python) : ParameterLists c file []

section Parameters
variable {t : Tree}

def parameters (n : Node t) : List (Node t) :=
  n.namedChildren.filter fun c =>
    c.kind ≠ "comment" ∧ c.kind ≠ "keyword_separator" ∧ c.kind ≠ "positional_separator"

def Exceeds (limit : Nat) (n : Node t) : Prop := limit < (parameters n).length

instance (limit : Nat) (n : Node t) : Decidable (Exceeds limit n) := by
  unfold Exceeds; infer_instance

end Parameters

structure ReportsParameters (g : Registry) (file : SourceFile) (limit : Nat) (n : Node file.tree)
    (f : Finding) : Prop where
  filed : f.FiledBy g maxParameters file n
  message : f.message = "Function '" ++ functionName n ++ "' has " ++
    Text.decimal (parameters n).length ++ " parameters (max " ++ Text.decimal limit ++ ")"
  suggestion : f.suggestion = some "Group related parameters into an object"

theorem limitIff (s : Settings) (n : Nat) : ParameterLimit s n ↔ n = maxParametersLimit s := by
  have read := s.naturalIff Text.wordLimit "max"
  constructor
  · intro own
    cases own with
    | given stored denotes fits =>
      rw [maxParametersLimit, (read n).mpr ⟨_, stored, denotes, fits⟩]
      rfl
    | standard without =>
      have none : s.natural? Text.wordLimit "max" = none := by
        apply Option.eq_none_iff_forall_ne_some.mpr
        intro n found
        obtain ⟨text, stored, denotes, fits⟩ := (read n).mp found
        exact Nat.not_lt.mpr (without text n stored denotes) fits
      rw [maxParametersLimit, none]
      rfl
  · intro same
    subst same
    unfold maxParametersLimit
    cases found : s.natural? Text.wordLimit "max" with
    | some n =>
      obtain ⟨text, stored, denotes, fits⟩ := (read n).mp found
      exact .given stored denotes fits
    | none =>
      refine .standard fun text n stored denotes => Nat.not_lt.mp fun fits => ?_
      rw [(read n).mpr ⟨text, stored, denotes, fits⟩] at found
      cases found

section Report
variable {t : Tree} {n : Node t} {s : Settings}

theorem parameterCountEq (n : Node t) : parameterCount n = (parameters n).length := by
  unfold parameterCount parameters
  congr 2
  funext c
  simp [nonParameterKinds]

theorem parametersEach (s : Settings) (n : Node t) :
    (maxParameters.under s).validateNode n = .ok ((maxParameters.under s).reports n) := by
  unfold Rule.reports Rule.validateNode
  simp only [Rule.under, maxParameters]
  split <;> rfl

theorem parametersAllowed (allowed : ¬ Exceeds (maxParametersLimit s) n) :
    (maxParameters.under s).reports n = [] := by
  have few : parameterCount n ≤ maxParametersLimit s := by
    rw [parameterCountEq]
    exact Nat.le_of_not_lt allowed
  unfold Rule.reports Rule.validateNode
  simp only [Rule.under, maxParameters, if_pos few]
  rfl

theorem parametersReported (exceeds : Exceeds (maxParametersLimit s) n) :
    ∃ f, (maxParameters.under s).reports n = [f] ∧ f.MadeBy (maxParameters.under s).toProfile n ∧
      f.message = "Function '" ++ functionName n ++ "' has " ++
        Text.decimal (parameters n).length ++ " parameters (max " ++
        Text.decimal (maxParametersLimit s) ++ ")" ∧
      f.suggestion = some "Group related parameters into an object" := by
  have many : ¬ parameterCount n ≤ maxParametersLimit s := by
    rw [parameterCountEq]
    exact Nat.not_le.mpr exceeds
  let f := (Finding.ofRule maxParameters.metadata n).withMessage
    ("Function '" ++ functionName n ++ "' has " ++ Text.decimal (parameterCount n) ++
      " parameters (max " ++ Text.decimal (maxParametersLimit s) ++ ")")
  have made : f.MadeBy (maxParameters.under s).toProfile n :=
    Finding.madeWithMessage (Finding.madeOfRule _ n) _
  refine ⟨f, ?_, made, by rw [← parameterCountEq]; rfl, rfl⟩
  unfold Rule.reports Rule.validateNode
  simp only [Rule.under, maxParameters, if_neg many]
  rfl

end Report

section Queried
variable {c : Compilers} {g : Registry} {before after : List Rule} {e : Engine}

theorem parametersSingly {source : String} (declared : maxParameters.metadata.query = some source)
    (s : Settings) : (maxParameters.under s).Singly source :=
  ⟨fun _ => rfl, fun _ => rfl, declared, rfl, fun _ => rfl, fun n => parametersEach s n⟩

theorem parametersApply (s : Settings) (file : SourceFile) :
    Applies (maxParameters.under s) file ↔ file.language = .python := by
  have covered : Language.covers .python file.language = true ↔ file.language = .python := by
    simp [Language.covers, Language.dialects]
  exact ⟨fun applies => covered.mp applies.2, fun python => ⟨rfl, covered.mpr python⟩⟩

theorem parametersReport (built : BuiltOf c g (before ++ maxParameters :: after) e)
    (runs : g.Runs maxParameters) (file : SourceFile) :
    ∃ nodes, ParameterLists c file nodes ∧ ∀ s, OwnReport c g before (maxParameters.under s) after file
      ⟨file.name, (nodes.flatMap (maxParameters.under s).reports).map
        (completed (g.override? "max-parameters") file), []⟩ := by
  by_cases python : file.language = .python
  · obtain ⟨compiled, own, _⟩ := ownReport built runs file
    have covered : maxParameters.metadata.language.covers file.language = true := by
      rw [python]; rfl
    obtain ⟨query, outcome, _⟩ := queryOwn own covered rfl
    refine ⟨_, .queried python rfl (python ▸ outcome), fun s => ?_⟩
    obtain ⟨e', built'⟩ := builtUnder built s
    have found : (maxParameters.under s).validateQuery (query file.tree) file.tree.root none .all =
        .ok ((query file.tree).targets file.tree.root) :=
      congrArg Except.ok (Query.resolveTargets (query file.tree) file.tree.root)
    exact reportSingly (parametersSingly rfl s) built' runs ((parametersApply s file).mpr python)
      outcome found
  · refine ⟨[], .foreign python, fun s => ?_⟩
    obtain ⟨e', built'⟩ := builtUnder built s
    exact reportIdle built' runs fun applies => python ((parametersApply s file).mp applies)

theorem parametersKept (g : Registry) (file : SourceFile) (s : Settings)
    (nodes : List (Node file.tree)) :
    List.Forall₂ (ReportsParameters g file (maxParametersLimit s))
      (nodes.filter fun n => Exceeds (maxParametersLimit s) n)
      ((nodes.flatMap (maxParameters.under s).reports).map
        (completed (g.override? "max-parameters") file)) := by
  refine reportsKept (fun n apart => ?_) (fun n kept => ?_) nodes
  · exact parametersAllowed (of_decide_eq_false apart)
  · obtain ⟨f, listed, made, message, suggestion⟩ := parametersReported (of_decide_eq_true kept)
    have ranked := completedRanked (g.override? "max-parameters") file f
    refine ⟨f, listed, filedUnder (filedCompleted made), ?_, ?_⟩
    · rw [ranked.message, message]
    · rw [ranked.suggestion, suggestion]

end Queried

section Monotone
variable {t : Tree} {limit limit' : Nat}

theorem exceedsFewer (higher : limit ≤ limit') (nodes : List (Node t)) :
    (nodes.filter fun n => Exceeds limit' n).Sublist (nodes.filter fun n => Exceeds limit n) := by
  apply List.monotone_filter_right
  intro n exceeds
  exact decide_eq_true (Nat.lt_of_le_of_lt higher (of_decide_eq_true exceeds))

theorem reportedNodes {g : Registry} {file : SourceFile} {nodes : List (Node file.tree)}
    {found : List Finding} (reports : List.Forall₂ (ReportsParameters g file limit) nodes found) :
    found.map Finding.node = nodes.map Node.snapshot := by
  induction reports with
  | nil => rfl
  | cons head _ ih => rw [List.map_cons, List.map_cons, head.filed.node, ih]

end Monotone

theorem longListsReported {c : Compilers} {g : Registry} {before after : List Rule} {e : Engine}
    (built : BuiltOf c g (before ++ maxParameters :: after) e) (runs : g.Runs maxParameters)
    (file : SourceFile) :
    ∃ nodes, ParameterLists c file nodes ∧
      (∀ s, ∃ limit own, (∀ n, ParameterLimit s n ↔ n = limit) ∧
        OwnReport c g before (maxParameters.under s) after file own ∧ own.faults = [] ∧
        List.Forall₂ (ReportsParameters g file limit) (nodes.filter fun n => Exceeds limit n)
          own.results) ∧
      ∀ s s' limit limit', ParameterLimit s limit → ParameterLimit s' limit' → limit ≤ limit' →
        ∃ own own', OwnReport c g before (maxParameters.under s) after file own ∧
          OwnReport c g before (maxParameters.under s') after file own' ∧
          (own'.results.map Finding.node).Sublist (own.results.map Finding.node) := by
  obtain ⟨nodes, lists, report⟩ := parametersReport built runs file
  refine ⟨nodes, lists, fun s => ?_, fun s s' limit limit' first second higher => ?_⟩
  · exact ⟨_, _, limitIff s, report s, rfl, parametersKept g file s nodes⟩
  · refine ⟨_, _, report s, report s', ?_⟩
    rw [(limitIff s limit).mp first, (limitIff s' limit').mp second] at higher
    rw [reportedNodes (parametersKept g file s nodes),
      reportedNodes (parametersKept g file s' nodes)]
    exact (exceedsFewer higher nodes).map _

theorem longListsReportedSigned :
    let compilers : Compilers :=
      ⟨fun _ _ => .ok fun t => ⟨1, ["target"], fun _ => [], fun _ =>
        (t.nodes.filter fun n => n.kind = "parameters").map fun n => ⟨"target", n⟩⟩,
        fun _ => .error ""⟩
    let part (parent : Nat) (kind : String) (start stop : Nat) (field : Option String) : Row :=
      ⟨some parent, kind, true, false, false, false, start, stop, field⟩
    let root : Row := ⟨none, "module", true, false, false, false, 0, 29, none⟩
    let file : SourceFile := ⟨"a.py", .python,
      ⟨"def f(a, *, b): 1\ndef g(c): 1", #[root, part 0 "function_definition" 0 17 none,
        part 1 "identifier" 4 5 (some "name"), part 1 "parameters" 5 14 (some "parameters"),
        part 3 "identifier" 6 7 none, part 3 "keyword_separator" 9 10 none,
        part 3 "identifier" 12 13 none, part 0 "function_definition" 18 29 none,
        part 7 "identifier" 22 23 (some "name"), part 7 "parameters" 23 26 (some "parameters"),
        part 9 "identifier" 24 25 none], [], by decide⟩⟩
    let low := Settings.empty.set "max" " +0\n"
    let high := Settings.empty.set "max" "1"
    ParameterLimit low 0 ∧ ParameterLimit high 1 ∧
    ∃ own own', OwnReport compilers {} [noPrint] (maxParameters.under low) [] file own ∧
      OwnReport compilers {} [noPrint] (maxParameters.under high) [] file own' ∧
      own.results.map Finding.message =
        ["Function 'f' has 2 parameters (max 0)", "Function 'g' has 1 parameters (max 0)"] ∧
      own'.results.map Finding.message = ["Function 'f' has 2 parameters (max 1)"] ∧
      (own'.results.map Finding.node).Sublist (own.results.map Finding.node) := by
  intro compilers part root file low high
  have zero : ParameterLimit low 0 := (limitIff low 0).mpr (by decide +kernel)
  have one : ParameterLimit high 1 := (limitIff high 1).mpr (by decide +kernel)
  obtain ⟨e, built⟩ : ∃ e, BuiltOf compilers {} ([noPrint] ++ maxParameters :: []) e := ⟨_, rfl⟩
  obtain ⟨_, _, _, fewer⟩ := longListsReported built (by decide) file
  obtain ⟨own, own', first, second, part⟩ := fewer low high 0 1 zero one (by decide)
  refine ⟨zero, one, own, own', first, second, ?_, ?_, part⟩
  · obtain ⟨_, _, _, _, _, _, alone, _, rfl, _⟩ := first.joined
    cases alone
    decide +kernel
  · obtain ⟨_, _, _, _, _, _, alone, _, rfl, _⟩ := second.joined
    cases alone
    decide +kernel

end SyntaxAudit.Builtin
